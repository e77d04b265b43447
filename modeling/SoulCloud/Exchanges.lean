import SoulCloud.Lib.Ascending
import SoulCloud.Verification

/-!
# A download ends

`download` counts its failures from zero again after any progress, so nothing bounds its loop but
the missing bytes and the attempts left taken together.

- `DownloadLog`, `downloads`: the update component with what `download` has done: the values of
  `offset`, the calls of `download_from` and the steps of the update task, each of them one call
  that returns.
- `spent`: the steps that so many bytes and so many failures account for.
- `OtaPc.Accounted`: what the log holds at each program counter; `accounted_reach` is its run
  lemma.
- `download_ends`: **a download ends**, with at most five calls of `download_from` for each
  offset.

Without progress a call of `download_from` takes six steps at most, and a chunk of the body takes
three: five calls and one chunk for each byte, and three steps around the loop.
-/

namespace SoulCloud

open Word

/-- What `download` has done. -/
structure DownloadLog where
  /-- The values of `offset`, in order. -/
  offsets : List Nat
  /-- The offset of each call of `download_from`, in order. -/
  exchanges : List Nat
  /-- The steps that the update task took. -/
  steps : Nat

/-- A download that has not begun. -/
def DownloadLog.empty : DownloadLog := ⟨[], [], 0⟩

/-- The update task is in `download`. -/
def OtaPc.downloading : OtaPc → Bool
  | .prepare | .loop _ | .connect _ | .fetch _ | .check _ _ | .read _ _ | .write _ _ _
  | .close _ _ | .finish _ => true
  | _ => false

/-- The step is one of the update task. -/
def OtaAct.ofTask : OtaAct → Bool
  | .start _ _ | .cancel _ | .cancelStore => false
  | _ => true

/-- One step in `download`, by where it leads: back to the loop with a value of `offset`, or into
`download_from`. -/
def DownloadLog.note (log : DownloadLog) (pc : OtaPc) : DownloadLog where
  offsets := match pc with
    | .loop d => log.offsets ++ [d.offset]
    | _ => log.offsets
  exchanges := match pc with
    | .connect d => log.exchanges ++ [d.offset]
    | _ => log.exchanges
  steps := log.steps + 1

/-- What a step adds to the log; a new attempt begins another. -/
def noteDownload (s : Ota) (a : OtaAct) (s' : Ota) (log : DownloadLog) : DownloadLog :=
  match a with
  | .start _ _ => if s.running then log else .empty
  | .cancel _ | .cancelStore => log
  | _ => if s.pc.downloading then log.note s'.pc else log

/-- The update component and what `download` has done in the present attempt. -/
def downloads (port : OtaPort) : Lts (Ota × DownloadLog) OtaAct :=
  (ota port).withHist .empty noteDownload

/-! ## What the log holds -/

/-- The log is in order, and no offset has had too many calls. -/
structure DownloadLog.Orderly (log : DownloadLog) (size : Nat) : Prop where
  offsets : Ascends log.offsets size
  exchanges : log.exchanges.Pairwise (· ≤ ·)
  attempts : ∀ offset, log.exchanges.count offset ≤ Ota.maxAttempts
  steps : log.steps ≤ 33 * size + 3

/-- The download is at this offset, and has called `download_from` for it `tries` times. -/
structure DownloadLog.At (log : DownloadLog) (offset tries : Nat) : Prop where
  last : log.offsets.getLast? = some offset
  offsets : Ascends log.offsets offset
  exchanges : Ascends log.exchanges offset
  tries : log.exchanges.count offset = tries
  attempts : ∀ o, log.exchanges.count o ≤ Ota.maxAttempts

/-- The steps that may have been taken when a transfer is over and the flash holds `w` bytes. -/
def spent (d : Attempt) (w : Nat) : Nat :=
  if w = d.offset then 33 * d.offset + 6 * d.attempts + 6 else 33 * w

/-- `download_from` is under way, and there are `left` steps to its end if it makes no progress. -/
structure Exchanging (log : DownloadLog) (size w : Nat) (d : Attempt) (left : Nat) : Prop where
  here : log.At d.offset (d.attempts + 1)
  attempts : d.attempts < Ota.maxAttempts
  missing : d.offset < size
  steps : log.steps + left ≤ spent d w

/-- What the log holds at each program counter, with `w` bytes in the flash. -/
def OtaPc.Accounted (size w : Nat) (log : DownloadLog) : OtaPc → Prop
  | .getPartition | .otaBegin | .prepare => log = .empty
  | .loop d =>
    log.At d.offset d.attempts ∧ d.attempts < Ota.maxAttempts ∧
      (d.attempts ≠ 0 → d.offset < size) ∧ log.steps ≤ 33 * d.offset + 6 * d.attempts + 1
  | .connect d => Exchanging log size w d 4
  | .fetch d => Exchanging log size w d 3
  | .check d _ => Exchanging log size w d 2
  | .read d _ => Exchanging log size w d 1
  | .write d _ data => data ≠ [] ∧ Exchanging log size w d 0
  | .close d total =>
    -- A failed write takes a step more, and is the last of this download.
    log.At d.offset (d.attempts + 1) ∧ d.attempts < Ota.maxAttempts ∧ d.offset < size ∧
      log.steps ≤ 33 * size + 1 ∧ (total ≠ -2 → log.steps ≤ spent d w)
  | .finish ret => log.Orderly size ∧ log.steps ≤ 33 * size + 2 ∧
      (ret = .ok → log.offsets.getLast? = some size)
  | .verify _ => log.Orderly size ∧ log.offsets.getLast? = some size
  | _ => log.Orderly size

namespace DownloadLog

variable {log : DownloadLog} {size offset tries : Nat}

theorem At.orderly (h : log.At offset tries) (hle : offset ≤ size)
    (hsteps : log.steps ≤ 33 * size + 3) : log.Orderly size :=
  ⟨h.offsets.mono hle, h.exchanges.sorted, h.attempts, hsteps⟩

theorem orderly_empty (size : Nat) : empty.Orderly size :=
  ⟨.nil size, .nil, fun _ => Nat.zero_le _, Nat.zero_le _⟩

/-- One more step, which leads nowhere of interest. -/
theorem At.step (h : log.At offset tries) (n : Nat) :
    At ⟨log.offsets, log.exchanges, n⟩ offset tries :=
  ⟨h.last, h.offsets, h.exchanges, h.tries, h.attempts⟩

/-- The offset as it was, or advanced to a value for which nothing has been called. -/
theorem At.loop (h : log.At offset tries) {offset' tries' : Nat} (n : Nat)
    (hnext : offset' = offset ∧ tries' = tries ∨ offset < offset' ∧ tries' = 0) :
    At ⟨log.offsets ++ [offset'], log.exchanges, n⟩ offset' tries' := by
  have hle : offset ≤ offset' := by omega
  refine ⟨List.getLast?_concat, h.offsets.snoc hle, h.exchanges.mono hle, ?_, h.attempts⟩
  rcases hnext with ⟨rfl, rfl⟩ | ⟨hlt, rfl⟩
  · exact h.tries
  · exact h.exchanges.count_of_lt hlt

/-- One more call of `download_from`. -/
theorem At.exchange (h : log.At offset tries) (n : Nat) (htries : tries < Ota.maxAttempts) :
    At ⟨log.offsets, log.exchanges ++ [offset], n⟩ offset (tries + 1) := by
  refine ⟨h.last, h.offsets, h.exchanges.snoc (Nat.le_refl _), ?_, ?_⟩
  · rw [List.count_append, h.tries, List.count_singleton_self]
  · intro o
    rw [List.count_append]
    by_cases ho : offset = o
    · rw [← ho, h.tries, List.count_singleton_self]
      exact htries
    · rw [List.count_singleton, if_neg (by simpa using ho)]
      exact h.attempts o

theorem Orderly.step (h : log.Orderly size) {n : Nat} (hsteps : n ≤ 33 * size + 3) :
    Orderly ⟨log.offsets, log.exchanges, n⟩ size :=
  ⟨h.offsets, h.exchanges, h.attempts, hsteps⟩

end DownloadLog

theorem Streamed.length_le {size k : Nat} {written fed : Bytes} (h : Streamed size written fed k) :
    written.length ≤ size :=
  h.length.trans_le h.le

/-- The three steps of a chunk are paid for by its bytes. -/
theorem spent_write {d : Attempt} {w k : Nat} (hle : d.offset ≤ w) (hk : 0 < k)
    (hattempts : d.attempts < Ota.maxAttempts) : spent d w + 3 ≤ spent d (w + k) := by
  have hfive : Ota.maxAttempts = 5 := rfl
  unfold spent
  split_ifs <;> omega

theorem spent_le {d : Attempt} {w size : Nat} (hmissing : d.offset < size) (hle : w ≤ size)
    (hattempts : d.attempts < Ota.maxAttempts) : spent d w ≤ 33 * size := by
  have hfive : Ota.maxAttempts = 5 := rfl
  rw [spent]
  split_ifs <;> omega

/-- One step less is left. -/
theorem Exchanging.step {log : DownloadLog} {size w left : Nat} {d : Attempt}
    (h : Exchanging log size w d (left + 1)) :
    Exchanging ⟨log.offsets, log.exchanges, log.steps + 1⟩ size w d left := by
  refine ⟨h.here.step _, h.attempts, h.missing, ?_⟩
  have hsteps := h.steps
  show log.steps + 1 + left ≤ spent d w
  omega

/-- While `download_from` is under way the log is in order. -/
theorem Exchanging.orderly {log : DownloadLog} {size w left : Nat} {d : Attempt}
    (h : Exchanging log size w d left) (hw : w ≤ size) : log.Orderly size := by
  have hle := spent_le h.missing hw h.attempts
  have hsteps := h.steps
  exact h.here.orderly h.missing.le (by omega)

namespace Ota

variable {port : OtaPort} {s s' : Ota} {a : OtaAct}

/-- **The end of a transfer**: the download is over, or tries again at the same offset, or goes on
where the flash ends. -/
theorem closing_cases {size : Nat} {written fed : Bytes} {d : Attempt} {total : Int}
    (h : Closing size written fed d total) :
    (∃ ret, ret ≠ .ok ∧ afterTransfer d (transferRet total) = .finish ret) ∨
      total ≠ -2 ∧ written.length = d.offset ∧ d.attempts + 1 < maxAttempts ∧
        afterTransfer d (transferRet total) = .loop ⟨d.offset, d.attempts + 1⟩ ∨
      total ≠ -2 ∧ d.offset < written.length ∧
        afterTransfer d (transferRet total) = .loop ⟨written.length, 0⟩ := by
  have hstage := closing_afterTransfer h
  rw [afterTransfer] at hstage ⊢
  split_ifs at hstage ⊢ with hprogress hfinal hused
  · -- The offset advances by what was read, to where the flash ends.
    have hreal : Streamed size written fed (toSizeT (d.offset + transferRet total)) := hstage
    rcases h with rfl | ⟨rfl, -⟩ | ⟨n, htotal, hn⟩
    · exact absurd hprogress (by decide)
    · exact absurd hprogress (by decide)
    · have hpos : n ≠ 0 := by
        rintro rfl
        rw [htotal, toInt32_of_lt (by omega)] at hprogress
        exact absurd hprogress (by decide)
      have hlen := hn.length
      rw [← hreal.length]
      refine .inr (.inr ⟨?_, by omega, rfl⟩)
      rintro rfl
      exact absurd hprogress (by decide)
  · exact .inl ⟨_, by decide, rfl⟩
  · exact .inl ⟨_, by decide, rfl⟩
  · have hsame : Streamed size written fed d.offset := hstage
    refine .inr (.inl ⟨?_, hsame.length, by omega, rfl⟩)
    rintro rfl
    exact hfinal (by decide)

/-- A step in `download` is noted. -/
theorem note_downloading (log : DownloadLog) {pc : OtaPc} (hpc : s.pc = pc)
    (ha : a.ofTask = true) (hin : pc.downloading = true) :
    noteDownload s a s' log = log.note s'.pc := by
  subst hpc
  cases a with
  | start | cancel | cancelStore => cases ha
  | _ => exact if_pos hin

/-- The other steps of the update task are not. -/
theorem note_other (log : DownloadLog) {pc : OtaPc} (hpc : s.pc = pc) (ha : a.ofTask = true)
    (hout : pc.downloading = false) : noteDownload s a s' log = log := by
  subst hpc
  cases a with
  | start | cancel | cancelStore => cases ha
  | _ => exact if_neg (Bool.eq_false_iff.mp hout)

/-- `download` with the result of `download_from`. -/
theorem accounted_afterTransfer {size : Nat} {written fed : Bytes} {log : DownloadLog} {d : Attempt}
    {total : Int} (hclosing : Closing size written fed d total)
    (hat : log.At d.offset (d.attempts + 1)) (hmissing : d.offset < size)
    (hsteps : log.steps ≤ 33 * size + 1)
    (hspent : total ≠ -2 → log.steps ≤ spent d written.length) :
    (afterTransfer d (transferRet total)).Accounted size written.length
      (log.note (afterTransfer d (transferRet total))) := by
  rcases closing_cases hclosing with ⟨ret, hret, hpc⟩ | ⟨htotal, hlen, htries, hpc⟩ |
    ⟨htotal, hlen, hpc⟩
  · rw [hpc]
    have hnow : log.steps + 1 ≤ 33 * size + 2 := by omega
    refine ⟨(hat.step _).orderly hmissing.le ?_, hnow, fun hok => absurd hok hret⟩
    exact Nat.le_succ_of_le hnow
  · -- the same offset again, after one more failure
    have hle := hspent htotal
    rw [spent, if_pos hlen] at hle
    rw [hpc]
    refine ⟨hat.loop _ (.inl ⟨rfl, rfl⟩), htries, fun _ => hmissing, ?_⟩
    show log.steps + 1 ≤ 33 * d.offset + 6 * (d.attempts + 1) + 1
    omega
  · -- progress: the failures are counted from zero again
    have hle := hspent htotal
    rw [spent, if_neg (by omega)] at hle
    rw [hpc]
    have hfive : 0 < maxAttempts := by decide
    refine ⟨hat.loop _ (.inr ⟨hlen, rfl⟩), hfive, fun h => absurd rfl h, ?_⟩
    show log.steps + 1 ≤ 33 * written.length + 6 * 0 + 1
    omega

/-- `download_from` is about to close its connection. -/
theorem accounted_close {size w left : Nat} {log : DownloadLog} {d : Attempt} {total : Int}
    (h : Exchanging log size w d left) (hw : w ≤ size) (hleft : total ≠ -2 → left ≠ 0) :
    (OtaPc.close d total).Accounted size w (log.note (.close d total)) := by
  obtain ⟨hat, hattempts, hmissing, hsteps⟩ := h
  have hle := spent_le hmissing hw hattempts
  refine ⟨hat.step _, hattempts, hmissing, ?_, fun htotal => ?_⟩
  · show log.steps + 1 ≤ 33 * size + 1
    omega
  · have hpos := hleft htotal
    show log.steps + 1 ≤ spent d w
    omega

/-- **Step lemma**: the log keeps to what its program counter allows. -/
theorem accounted_step {log : DownloadLog} (h : OtaStep port s a s') (hstage : s.Stage)
    (hs : s.pc.Accounted s.params.size s.written.length log) :
    s'.pc.Accounted s'.params.size s'.written.length (noteDownload s a s' log) := by
  cases h with
  | @startRunning params created _ hrun =>
    have hsame : noteDownload s (.start params created) s log = log := if_pos hrun
    rw [hsame]
    exact hs
  | @start params created _ hrun =>
    have hnew : noteDownload s (.start params created) (s.launch params created) log = .empty :=
      if_neg (Bool.eq_false_iff.mp hrun)
    rw [hnew]
    cases created with
    | true => exact rfl
    | false => exact DownloadLog.orderly_empty _
  | cancelRefused | cancel | cancelStore => exact hs
  | noPartition hpc | tooLarge hpc | otaBeginFailed hpc =>
    rw [hpc] at hs
    rw [note_other log hpc rfl rfl, (hs : log = .empty)]
    exact DownloadLog.orderly_empty _
  | getPartition hpc | otaBegin hpc =>
    rw [hpc] at hs
    rw [note_other log hpc rfl rfl]
    exact hs
  | prepareFailed hpc =>
    rw [hpc] at hs
    rw [note_downloading log hpc rfl rfl, (hs : log = .empty)]
    exact ⟨.nil _, .nil, fun _ => Nat.zero_le _, Nat.succ_le_of_lt (Nat.succ_pos _)⟩
  | prepare hpc =>
    rw [hpc] at hs
    rw [note_downloading log hpc rfl rfl, (hs : log = .empty)]
    refine ⟨⟨rfl, (Ascends.nil 0).snoc (Nat.le_refl _), .nil 0, rfl, fun _ => Nat.zero_le _⟩,
      by decide, fun h => absurd rfl h, Nat.le_refl _⟩
  | @loopDone d hpc hsize =>
    rw [stage_iff hpc] at hstage
    rw [hpc] at hs
    obtain ⟨hat, hattempts, hmissing, hsteps⟩ := hs
    have hoff : d.offset = s.params.size := Nat.le_antisymm hstage.le hsize
    -- The failures at an offset are of calls that were made because bytes were missing.
    have hfirst : d.attempts = 0 := by
      by_contra hne
      exact absurd (hmissing hne) (by omega)
    have hnow : log.steps + 1 ≤ 33 * s.params.size + 2 := by omega
    rw [note_downloading log hpc rfl rfl]
    refine ⟨(hat.step _).orderly hoff.le (Nat.le_succ_of_le hnow), hnow, fun _ => ?_⟩
    rw [← hoff]
    exact hat.last
  | loopCancelled hpc hsize =>
    rw [hpc] at hs
    obtain ⟨hat, hattempts, -, hsteps⟩ := hs
    have hfive : maxAttempts = 5 := rfl
    have hnow : log.steps + 1 ≤ 33 * s.params.size + 2 := by omega
    rw [note_downloading log hpc rfl rfl]
    exact ⟨(hat.step _).orderly hsize.le (Nat.le_succ_of_le hnow), hnow, nofun⟩
  | loop hpc hsize =>
    rw [stage_iff hpc] at hstage
    rw [hpc] at hs
    obtain ⟨hat, hattempts, -, hsteps⟩ := hs
    rw [note_downloading log hpc rfl rfl]
    refine ⟨hat.exchange _ hattempts, hattempts, hsize, ?_⟩
    show log.steps + 1 + 4 ≤ spent _ _
    rw [spent, if_pos hstage.length]
    omega
  | connectFailed hpc =>
    rw [stage_iff hpc] at hstage
    rw [hpc] at hs
    obtain ⟨hat, hattempts, hmissing, hsteps⟩ := hs
    have hle := spent_le hmissing (hstage.length ▸ hmissing.le) hattempts
    rw [note_downloading log hpc rfl rfl]
    exact accounted_afterTransfer (.inr (.inl ⟨rfl, hstage⟩)) hat hmissing (by omega)
      fun _ => by omega
  | connect hpc | fetch hpc | check hpc =>
    rw [hpc] at hs
    rw [note_downloading log hpc rfl rfl]
    exact Exchanging.step hs
  | refused hpc =>
    rw [stage_iff hpc] at hstage
    rw [hpc] at hs
    rw [note_downloading log hpc rfl rfl]
    exact accounted_close hs hstage.length_le fun _ => by decide
  | checkDone hpc | readEnd hpc =>
    rw [stage_iff hpc] at hstage
    obtain ⟨n, -, hn⟩ := hstage
    rw [hpc] at hs
    rw [note_downloading log hpc rfl rfl]
    exact accounted_close hs hn.length_le fun _ => by decide
  | read hpc hdata =>
    rw [hpc] at hs
    rw [note_downloading log hpc rfl rfl]
    exact ⟨hdata, Exchanging.step hs⟩
  | writeFailed hpc =>
    rw [stage_iff hpc] at hstage
    obtain ⟨n, -, hn, -⟩ := hstage
    rw [hpc] at hs
    rw [note_downloading log hpc rfl rfl]
    exact accounted_close hs.2 hn.length_le fun h => absurd rfl h
  | @write d total data _ _ _ hpc =>
    rw [stage_iff hpc] at hstage
    obtain ⟨n, -, hn, -⟩ := hstage
    rw [hpc] at hs
    obtain ⟨hdata, hat, hattempts, hmissing, hsteps⟩ := hs
    have hlen := hn.length
    -- The steps to the end of the transfer begin anew, at the cost of the bytes written.
    have hmore := spent_write (by omega : d.offset ≤ s.written.length)
      (List.length_pos_iff.mpr hdata) hattempts
    rw [note_downloading log hpc rfl rfl]
    simp only [reportProgress_params, reportProgress_written, List.length_append]
    exact ⟨hat.step _, hattempts, hmissing, by dsimp only [DownloadLog.note]; omega⟩
  | close hpc =>
    rw [stage_iff hpc] at hstage
    rw [hpc] at hs
    obtain ⟨hat, hattempts, hmissing, hsteps, hspent⟩ := hs
    rw [note_downloading log hpc rfl rfl]
    exact accounted_afterTransfer hstage hat hmissing hsteps hspent
  | finish hpc =>
    rw [hpc] at hs
    obtain ⟨horderly, hsteps, hlast⟩ := hs
    rw [note_downloading log hpc rfl rfl]
    exact ⟨horderly.step (Nat.succ_le_succ hsteps), hlast rfl⟩
  | finishFailed hpc =>
    rw [hpc] at hs
    obtain ⟨horderly, hsteps, -⟩ := hs
    rw [note_downloading log hpc rfl rfl]
    exact horderly.step (Nat.succ_le_succ hsteps)
  | verify hpc | mismatch hpc =>
    rw [hpc] at hs
    rw [note_other log hpc rfl rfl]
    exact hs.1
  | abort hpc | otaEnd hpc | otaEndFailed hpc | setBoot hpc | setBootFailed hpc | restart hpc
  | clear hpc =>
    rw [hpc] at hs
    rw [note_other log hpc rfl rfl]
    exact hs

/-- **Run lemma**: every reachable state is accounted for. -/
theorem accounted_reach {p : Ota × DownloadLog} (h : (downloads port).Reach p) :
    p.1.pc.Accounted p.1.params.size p.1.written.length p.2 := by
  refine h.invariant (I := fun p => p.1.pc.Accounted p.1.params.size p.1.written.length p.2) ?_ ?_
  · exact DownloadLog.orderly_empty 0
  · intro p a p' hp hI _ hst
    obtain ⟨hst, hlog⟩ := Lts.withHist_step hst
    rw [hlog]
    exact accounted_step (otaStep_cases hst) (stage_reach (Lts.reach_fst hp)) hI

/-- The log is in order everywhere. -/
theorem orderly_of_accounted {log : DownloadLog} (hstage : s.Stage)
    (h : s.pc.Accounted s.params.size s.written.length log) : log.Orderly s.params.size := by
  cases hpc : s.pc with
  | getPartition | otaBegin | prepare =>
    rw [hpc] at h
    rw [(h : log = .empty)]
    exact DownloadLog.orderly_empty _
  | loop d =>
    rw [stage_iff hpc] at hstage
    rw [hpc] at h
    obtain ⟨hat, hattempts, hmissing, hsteps⟩ := h
    have hfive : maxAttempts = 5 := rfl
    have hle := hstage.le
    exact hat.orderly hle (by omega)
  | connect d | fetch d =>
    rw [stage_iff hpc] at hstage
    rw [hpc] at h
    exact Exchanging.orderly h hstage.length_le
  | check d total | read d total =>
    rw [stage_iff hpc] at hstage
    obtain ⟨n, -, hn⟩ := hstage
    rw [hpc] at h
    exact Exchanging.orderly h hn.length_le
  | write d total data =>
    rw [stage_iff hpc] at hstage
    obtain ⟨n, -, hn, -⟩ := hstage
    rw [hpc] at h
    exact h.2.orderly hn.length_le
  | close d total =>
    rw [hpc] at h
    obtain ⟨hat, -, hmissing, hsteps, -⟩ := h
    exact hat.orderly hmissing.le (by omega)
  | finish ret | verify digest =>
    rw [hpc] at h
    exact h.1
  | idle | abort ret | otaEnd | setBoot | restart | restarted | ended ret =>
    rw [hpc] at h
    exact h

/-- In `download` the update task can always take a step, once the call it has made returns. -/
theorem exists_step_of_downloading (port : OtaPort) (hpc : s.pc.downloading = true) :
    ∃ a s', a.ofTask = true ∧ s.step port a = some s' := by
  have hsome : ∀ a : OtaAct, a.ofTask = true → (s.step port a).isSome = true →
      ∃ a s', OtaAct.ofTask a = true ∧ s.step port a = some s' := by
    intro a ha h
    obtain ⟨s', hs'⟩ := Option.isSome_iff_exists.mp h
    exact ⟨a, s', ha, hs'⟩
  cases h : s.pc with
  | prepare => exact hsome (.prepare true true) rfl (by simp [step, h])
  | loop d => exact hsome .test rfl (by simp only [step, h]; split_ifs <;> rfl)
  | connect d => exact hsome (.connect true) rfl (by simp [step, h])
  | fetch d => exact hsome (.fetch none) rfl (by simp only [step, h]; split_ifs <;> rfl)
  | check d total => exact hsome .test rfl (by simp only [step, h]; split_ifs <;> rfl)
  | read d total => exact hsome (.read []) rfl (by simp [step, h])
  | write d total data => exact hsome (.write .ok true 0) rfl (by simp [step, h])
  | close d total => exact hsome .close rfl (by simp [step, h])
  | finish ret => exact hsome (.finish true) rfl (by simp only [step, h]; split_ifs <;> rfl)
  | _ =>
    rw [h] at hpc
    cases hpc

/-- **A download ends.** Whatever the server, the flash and the request task do, as long as every
call of the update task returns: it takes at most `33 * size + 3` steps in `download` and is
nowhere stuck there; `download_from` is called at most five times for each offset; the values of
`offset` never decrease and never exceed `params.size`; and when `download` has returned `ESP_OK`
the last of them is `params.size`. -/
theorem download_ends (port : OtaPort) {p : Ota × DownloadLog} (h : (downloads port).Reach p) :
    p.2.steps ≤ 33 * p.1.params.size + 3 ∧
      (p.1.pc.downloading = true → ∃ a s', a.ofTask = true ∧ p.1.step port a = some s') ∧
      (∀ offset, p.2.exchanges.count offset ≤ maxAttempts) ∧ p.2.exchanges.Pairwise (· ≤ ·) ∧
      p.2.offsets.Pairwise (· ≤ ·) ∧ (∀ offset ∈ p.2.offsets, offset ≤ p.1.params.size) ∧
      ∀ digest, p.1.pc = .verify digest → p.2.offsets.getLast? = some p.1.params.size := by
  have haccounted := accounted_reach h
  obtain ⟨hoffsets, hexchanges, hattempts, hsteps⟩ :=
    orderly_of_accounted (stage_reach (Lts.reach_fst h)) haccounted
  refine ⟨hsteps, exists_step_of_downloading port, hattempts, hexchanges, hoffsets.sorted,
    hoffsets.le, fun digest hpc => ?_⟩
  rw [hpc] at haccounted
  exact haccounted.2

/-- A download over two connections. -/
theorem download_ends_sample :
    ∃ p, (downloads .sample).Reach p ∧ p.2.exchanges = [0, 2] ∧ p.2.offsets = [0, 2, 3] ∧
      p.2.steps ≤ 33 * p.1.params.size + 3 := by
  have hrun : ((downloads .sample).run (sampleStart ++ sampleResume)).map
      (fun p => decide (p.2.exchanges = [0, 2] ∧ p.2.offsets = [0, 2, 3])) = some true := by
    decide +kernel
  obtain ⟨p, hp, hcheck⟩ := Lts.exists_reach_of_run hrun
  obtain ⟨hexchanges, hoffsets⟩ := of_decide_eq_true hcheck
  exact ⟨p, hp, hexchanges, hoffsets, (download_ends .sample hp).1⟩

end Ota

end SoulCloud
