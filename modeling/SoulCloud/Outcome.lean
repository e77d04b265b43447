import SoulCloud.Codec
import SoulCloud.Download
import SoulCloud.Exchanges
import SoulCloud.Reports

/-!
# How an attempt ends

An update is refused when it is requested, or fails on the way, or ends with the boot switch. Here
nothing on the way fails: the server delivers, every call of the SDK succeeds and nobody cancels.

- `HexSpelling`: the hexadecimal spellings of a digest, in lower or upper case.
- `attempt`: an attempt from its start on, with what `download` has done, the server's place and
  the steps taken so far.
- `Favourable`: nothing fails in a step.
- `OtaPc.Favoured`: where such an attempt can be, and what it has come to; `favoured_step` is its
  step lemma.
- `accepted_boots_iff`: **an attempt ends, and exactly a lower-case digest makes it end with the
  boot switch**; and what of a digest the decoder refuses.
-/

namespace SoulCloud

open Bytes Word

/-! ## Hexadecimal spellings -/

/-- An upper-case hexadecimal digit. -/
def isUpperHex (c : UInt8) : Bool := decide (65 ≤ c ∧ c ≤ 70)

/-- The digit in lower case. -/
def lowerHex (c : UInt8) : UInt8 := if isUpperHex c then c + 32 else c

/-- The text spells the digest, each digit in lower or upper case. -/
def HexSpelling (digest : Buf 32) (text : Bytes) : Prop :=
  text.map lowerHex = hexLower digest.bytes

instance (digest : Buf 32) (text : Bytes) : Decidable (HexSpelling digest text) :=
  inferInstanceAs (Decidable (_ = _))

/-- 64 hexadecimal digits. -/
def IsHexText (text : Bytes) : Prop :=
  text.length = 64 ∧ ∀ c ∈ text, (JsonReader.hexValue c).isSome = true

instance (text : Bytes) : Decidable (IsHexText text) := inferInstanceAs (Decidable (_ ∧ _))

theorem isUpperHex_hexDigit {d : UInt8} (h : d.toNat < 16) : isUpperHex (hexDigit d) = false :=
  of_forall_ofNat (p := fun d => isUpperHex (hexDigit d) = false) (by decide) h

/-- `%02x` prints lower case. -/
theorem isUpperHex_of_mem_hexLower {b : Bytes} {c : UInt8} (h : c ∈ hexLower b) :
    isUpperHex c = false := by
  obtain ⟨x, -, hc⟩ := List.mem_flatMap.mp h
  simp only [List.mem_cons, List.not_mem_nil, or_false] at hc
  rcases hc with rfl | rfl
  · exact isUpperHex_hexDigit (high_lt x)
  · exact isUpperHex_hexDigit (low_lt x)

/-- A spelling is the one that `%02x` prints if no digit is in upper case. -/
theorem HexSpelling.eq_iff {digest : Buf 32} {text : Bytes} (h : HexSpelling digest text) :
    hexLower digest.bytes = text ↔ ∀ c ∈ text, isUpperHex c = false := by
  constructor
  · rintro rfl c hc
    exact isUpperHex_of_mem_hexLower hc
  · intro hlower
    rw [← h]
    conv_rhs => rw [← List.map_id text]
    refine List.map_congr_left fun c hc => ?_
    rw [lowerHex, hlower c hc]
    rfl

/-! ## An attempt -/

/-- What has happened in an attempt. -/
structure AttemptLog where
  download : DownloadLog
  /-- The server's place in the image. -/
  place : Nat
  /-- The steps that the update task took. -/
  steps : Nat

/-- What a step adds; a new attempt counts from zero. -/
def noteAttempt (s : Ota) (a : OtaAct) (s' : Ota) (log : AttemptLog) : AttemptLog where
  download := noteDownload s a s' log.download
  place := serverMoves s a s' log.place
  steps := match a with
    | .start _ _ => if s.running then log.steps else 0
    | .cancel _ | .cancelStore => log.steps
    | _ => log.steps + 1

/-- The update component from the start of an attempt on, whatever was before it. -/
def attempt (port : OtaPort) (s : Ota) (params : OtaParams) : Lts (Ota × AttemptLog) OtaAct :=
  (Lts.mk (s.launch params true) (Ota.step port)).withHist ⟨.empty, 0, 0⟩ noteAttempt

namespace Ota

/-- The calls of a step succeed: there is a partition that the image fits, there is memory, flash
and hash do what they are asked for. Nobody cancels. -/
def works (s : Ota) : OtaAct → Bool
  | .getPartition partition =>
    match partition with
    | some p => decide (s.params.size ≤ p.size)
    | none => false
  | .otaBegin ret | .otaEnd ret | .setBoot ret => decide (ret = .ok)
  | .prepare buffer setup => buffer && setup
  | .write ret hashed _ => decide (ret = .ok) && hashed
  | .finish finished => finished
  | .cancelStore => false
  | _ => true

/-- The server delivers: it refuses no connection for good, of `MAX_ATTEMPTS` connections in a row
one brings something, and none brings so much that `total_read` wraps. -/
def delivers (s : Ota) (a : OtaAct) : Bool :=
  match a, s.pc with
  | .connect false, .connect d => decide (d.attempts + 1 < maxAttempts)
  | .fetch status, _ => decide (status.getD 0 < 400)
  | .read data, .read _ total => decide (total + data.length < 2 ^ 31)
  | .close, .close d total => decide (0 < total ∨ d.attempts + 1 < maxAttempts)
  | _, _ => true

end Ota

/-- Nothing fails in the step, and what the server sends is the image. -/
def Favourable (images : Bytes → Bytes) (p : Ota × AttemptLog) (a : OtaAct) : Prop :=
  Serves images (p.1, p.2.place) a ∧ p.1.works a = true ∧ p.1.delivers a = true

instance (images : Bytes → Bytes) (p : Ota × AttemptLog) (a : OtaAct) :
    Decidable (Favourable images p a) := inferInstanceAs (Decidable (_ ∧ _))

/-- The update task runs. -/
def OtaPc.active (pc : OtaPc) : Bool :=
  match pc with
  | .idle => false
  | pc => !pc.over

/-! ## Where it can be -/

/-- Where such an attempt can be. `booted`: the boot switch has been made; `whole`: the flash holds
all of the image; `agrees`: the digest of what it holds is spelled as the parameters have it. -/
def OtaPc.Favoured (booted whole agrees : Prop) : OtaPc → Prop
  | .check _ total | .read _ total => 0 ≤ total
  | .write _ total data => 0 ≤ total ∧ total + data.length < 2 ^ 31
  | .close _ total => -1 ≤ total
  | .finish ret => ret = .ok
  | .abort _ => False
  | .ended _ => ¬ booted ∧ whole ∧ ¬ agrees
  | .restart | .restarted => booted
  | _ => True

/-- The steps outside of `download` up to a program counter. -/
def OtaPc.outside : OtaPc → Nat
  | .getPartition => 0
  | .otaBegin => 1
  | .otaEnd => 3
  | .setBoot => 4
  | .restart | .ended _ => 5
  | .idle | .restarted => 6
  | _ => 2

namespace Ota

variable {port : OtaPort} {images : Bytes → Bytes} {s s' : Ota} {a : OtaAct}

/-- The digest of what the flash holds is spelled as the parameters have it. -/
def Agrees (port : OtaPort) (s : Ota) : Prop :=
  hexLower (port.sha256 s.written).bytes = s.params.sha256.bytes

/-- Nothing has failed but the comparison of the digest. -/
structure Favoured (port : OtaPort) (s : Ota) : Prop where
  uncancelled : s.cancelRequested = false
  place : s.pc.Favoured (OtaCall.setBootPartition ∈ s.calls) (s.written.length = s.params.size)
    (s.Agrees port)

/-- A transfer that has not failed leads back to the loop. -/
theorem afterTransfer_delivered {d : Attempt} {total : Int} (hcount : -1 ≤ total)
    (h : 0 < total ∨ d.attempts + 1 < maxAttempts) :
    ∃ d', afterTransfer d (transferRet total) = .loop d' := by
  have hret : 0 < transferRet total ∨ transferRet total = -1 ∧ d.attempts + 1 < maxAttempts := by
    rw [transferRet]
    split_ifs <;> omega
  rw [afterTransfer]
  rcases hret with hpos | ⟨hnone, hmore⟩
  · exact ⟨_, if_pos hpos⟩
  · rw [hnone, if_neg (by decide), if_neg (by decide), if_neg (by omega)]
    exact ⟨_, rfl⟩

/-- **Step lemma**: in a favourable step nothing fails but the comparison of the digest. -/
theorem favoured_step (h : OtaStep port s a s') (hworks : s.works a = true)
    (hdelivers : s.delivers a = true) (hstage : s.Stage) (hun : s.Unbooted)
    (hchecked : s.Checked port) (hs : s.Favoured port) : s'.Favoured port := by
  have hcan := hs.uncancelled
  have hplace := hs.place
  cases h with
  | startRunning | cancelRefused => exact hs
  | cancel => exact ⟨hcan, hplace⟩
  | @start params created => cases created <;> exact ⟨rfl, trivial⟩
  | cancelStore | noPartition => cases hworks
  | tooLarge _ hsize => exact absurd (of_decide_eq_true hworks) (by omega)
  | otaBeginFailed _ hret | otaEndFailed _ hret | setBootFailed _ hret =>
    exact absurd (of_decide_eq_true hworks) hret
  | writeFailed _ hret =>
    exact absurd (of_decide_eq_true (Bool.and_eq_true_iff.mp hworks).1) hret
  | prepareFailed _ hret =>
    obtain ⟨hbuffer, hsetup⟩ := Bool.and_eq_true_iff.mp hworks
    rcases hret with ⟨hno, -⟩ | ⟨-, hno, -⟩
    · cases hbuffer.symm.trans hno
    · cases hsetup.symm.trans hno
  | getPartition | otaBegin | prepare | loop | connect | finish | verify | otaEnd | clear =>
    exact ⟨hcan, trivial⟩
  | loopDone => exact ⟨hcan, rfl⟩
  | loopCancelled _ _ hcancelled => cases hcan.symm.trans hcancelled
  | @connectFailed d hpc =>
    simp only [delivers, hpc] at hdelivers
    obtain ⟨d', hloop⟩ := @afterTransfer_delivered d (-1) (by decide)
      (.inr (of_decide_eq_true hdelivers))
    refine ⟨hcan, ?_⟩
    show (afterTransfer d (-1)).Favoured _ _ _
    rw [show afterTransfer d (-1) = .loop d' from hloop]
    trivial
  | @refused d status total hpc _ htotal =>
    simp only [delivers] at hdelivers
    have hlt := of_decide_eq_true hdelivers
    refine ⟨hcan, ?_⟩
    show -1 ≤ total
    rw [htotal, if_neg (by omega)]
  | fetch => exact ⟨hcan, Int.le_refl 0⟩
  | @checkDone d total hpc | @readEnd d total hpc =>
    rw [hpc] at hplace
    refine ⟨hcan, ?_⟩
    show -1 ≤ total
    have hnonneg : 0 ≤ total := hplace
    omega
  | check hpc =>
    rw [hpc] at hplace
    exact ⟨hcan, hplace⟩
  | @read d total data hpc =>
    rw [hpc] at hplace
    simp only [delivers, hpc] at hdelivers
    exact ⟨hcan, hplace, of_decide_eq_true hdelivers⟩
  | @write d total data hashed now percent hpc =>
    rw [hpc] at hplace
    obtain ⟨hnonneg, hsmall⟩ := hplace
    refine ⟨(reportProgress_cancelRequested _ _ _).trans hcan, ?_⟩
    -- The count stays what it is: it has not reached 2^31.
    obtain ⟨n, rfl⟩ := Int.eq_ofNat_of_zero_le hnonneg
    have hcount : toInt32 (n + data.length) = (n + data.length : Nat) := toInt32_of_lt (by omega)
    show 0 ≤ toInt32 (n + data.length)
    rw [hcount]
    exact Int.natCast_nonneg _
  | @close d total hpc =>
    rw [hpc] at hplace
    simp only [delivers, hpc] at hdelivers
    obtain ⟨d', hloop⟩ := afterTransfer_delivered hplace (of_decide_eq_true hdelivers)
    refine ⟨hcan, ?_⟩
    show (afterTransfer d (transferRet total)).Favoured _ _ _
    rw [hloop]
    trivial
  | finishFailed hpc hret =>
    rw [hpc] at hplace
    exact absurd hplace hret
  | abort hpc =>
    rw [hpc] at hplace
    exact hplace.elim
  | @mismatch digest hpc hhex =>
    rw [stage_iff hpc] at hstage
    refine ⟨hcan, ?_, hstage.length, ?_⟩
    · intro hmem
      rw [calls_mismatch] at hmem
      have hold := hun (by rw [hpc]; rfl)
      simp [hold] at hmem
    · intro hagrees
      rw [hchecked.digest digest hpc, hstage.fed] at hhex
      exact hhex hagrees
  | setBoot =>
    refine ⟨hcan, ?_⟩
    show OtaCall.setBootPartition ∈ s.calls ++ [.setBootPartition] ++ _
    simp
  | restart hpc =>
    rw [hpc] at hplace
    exact ⟨hcan, List.mem_append_left _ hplace⟩

/-! ## How long it takes -/

/-- The steps of an attempt are those of its download and a few outside of it. -/
def Counted (p : Ota × AttemptLog) : Prop := p.2.steps ≤ p.2.download.steps + p.1.pc.outside

theorem counted_downloading {log : AttemptLog} {pc : OtaPc} (hpc : s.pc = pc)
    (ha : a.ofTask = true) (hin : pc.downloading = true) (hafter : 2 ≤ s'.pc.outside)
    (hs : Counted (s, log)) : Counted (s', noteAttempt s a s' log) := by
  have hsteps : (noteAttempt s a s' log).steps = log.steps + 1 := by
    cases a with
    | start | cancel | cancelStore => cases ha
    | _ => rfl
  have hnote : (noteAttempt s a s' log).download = log.download.note s'.pc :=
    note_downloading log.download hpc ha hin
  have hbefore : s.pc.outside = 2 := by
    rw [hpc]
    cases pc with
    | prepare | loop | connect | fetch | check | read | write | close | finish => rfl
    | _ => cases hin
  have hs' : log.steps ≤ log.download.steps + s.pc.outside := hs
  show (noteAttempt s a s' log).steps ≤
    (noteAttempt s a s' log).download.steps + s'.pc.outside
  rw [hsteps, hnote]
  show log.steps + 1 ≤ log.download.steps + 1 + s'.pc.outside
  omega

theorem counted_other {log : AttemptLog} {pc : OtaPc} (hpc : s.pc = pc) (ha : a.ofTask = true)
    (hout : pc.downloading = false) (hmore : pc.outside < s'.pc.outside)
    (hs : Counted (s, log)) : Counted (s', noteAttempt s a s' log) := by
  have hsteps : (noteAttempt s a s' log).steps = log.steps + 1 := by
    cases a with
    | start | cancel | cancelStore => cases ha
    | _ => rfl
  have hnote : (noteAttempt s a s' log).download = log.download :=
    note_other log.download hpc ha hout
  have hs' : log.steps ≤ log.download.steps + s.pc.outside := hs
  rw [hpc] at hs'
  show (noteAttempt s a s' log).steps ≤
    (noteAttempt s a s' log).download.steps + s'.pc.outside
  rw [hsteps, hnote]
  omega

theorem outside_afterTransfer (d : Attempt) (readLen : Int) :
    (afterTransfer d readLen).outside = 2 := by
  rcases afterTransfer_cases d readLen with ⟨_, hpc⟩ | ⟨_, -, hpc⟩ <;>
  · rw [hpc]
    rfl

/-- **Step lemma** for the count. -/
theorem counted_step {log : AttemptLog} (h : OtaStep port s a s') (hs : Counted (s, log)) :
    Counted (s', noteAttempt s a s' log) := by
  have hcount : log.steps ≤ log.download.steps + s.pc.outside := hs
  cases h with
  | @startRunning params created _ hrun =>
    simp only [Counted, noteAttempt, noteDownload, if_pos hrun]
    exact hcount
  | @start params created _ hrun =>
    simp only [Counted, noteAttempt, noteDownload, hrun]
    exact Nat.zero_le _
  | cancelRefused | cancel | cancelStore => exact hcount
  | prepareFailed hpc | prepare hpc | loopDone hpc | loopCancelled hpc | loop hpc | connect hpc
  | refused hpc | fetch hpc | checkDone hpc | check hpc | readEnd hpc | read hpc | writeFailed hpc
  | write hpc | finish hpc | finishFailed hpc =>
    exact counted_downloading hpc rfl rfl (Nat.le_refl 2) hs
  | connectFailed hpc | close hpc =>
    refine counted_downloading hpc rfl rfl ?_ hs
    dsimp only
    exact (outside_afterTransfer _ _).ge
  | noPartition hpc | tooLarge hpc | getPartition hpc | otaBegin hpc | otaBeginFailed hpc
  | abort hpc | verify hpc | mismatch hpc | otaEnd hpc | otaEndFailed hpc | setBoot hpc
  | setBootFailed hpc | restart hpc | clear hpc =>
    exact counted_other hpc rfl rfl (Nat.le_of_ble_eq_true rfl) hs

/-- The update task is nowhere stuck while an attempt lasts. -/
theorem exists_step_of_active (port : OtaPort) (hpc : s.pc.active = true) :
    ∃ a s', a.ofTask = true ∧ s.step port a = some s' := by
  cases hdown : s.pc.downloading with
  | true => exact exists_step_of_downloading port hdown
  | false =>
    cases h : s.pc with
    | getPartition => exact ⟨.getPartition none, _, rfl, by simp only [step, h]; rfl⟩
    | otaBegin => exact ⟨.otaBegin .ok, _, rfl, by simp only [step, h]; rfl⟩
    | abort ret => exact ⟨.abort, _, rfl, by simp only [step, h]; rfl⟩
    | verify digest => exact ⟨.verify, _, rfl, by simp only [step, h]; rfl⟩
    | otaEnd => exact ⟨.otaEnd .ok, _, rfl, by simp only [step, h]; rfl⟩
    | setBoot => exact ⟨.setBoot .ok, _, rfl, by simp only [step, h]; rfl⟩
    | idle | restart | restarted | ended ret =>
      rw [h] at hpc
      cases hpc
    | _ =>
      rw [h] at hdown
      cases hdown

/-! ## The run -/

/-- What holds in an attempt where nothing fails. -/
structure Attempting (port : OtaPort) (images : Bytes → Bytes) (p : Ota × AttemptLog) : Prop where
  stage : p.1.Stage
  unbooted : p.1.Unbooted
  checked : p.1.Checked port
  favoured : p.1.Favoured port
  aligned : Aligned images (p.1, p.2.place)
  accounted : p.1.pc.Accounted p.1.params.size p.1.written.length p.2.download
  counted : Counted p

/-- **Run lemma**: it holds from the start of the attempt on. -/
theorem attempting_reach {s₀ : Ota} {params : OtaParams} {p : Ota × AttemptLog}
    (h : (attempt port s₀ params).ReachBy (Favourable images) p) : Attempting port images p := by
  refine h.invariant (I := Attempting port images) ?_ ?_
  · exact ⟨trivial, nofun, ⟨rfl, nofun, nofun, nofun⟩, ⟨rfl, trivial⟩, ⟨List.nil_prefix, trivial⟩,
      rfl, Nat.zero_le _⟩
  · intro p a p' _ hp hg hst
    obtain ⟨hst, hlog⟩ := Lts.withHist_step hst
    have hstep := otaStep_cases hst
    obtain ⟨hserves, hworks, hdelivers⟩ := hg
    have hhash : hashWorks a = true := by
      cases a with
      | write ret hashed now => exact (Bool.and_eq_true_iff.mp hworks).2
      | finish finished => exact hworks
      | _ => rfl
    have hplace : p'.2.place = serverMoves p.1 a p'.1 p.2.place := congrArg AttemptLog.place hlog
    constructor
    · exact stage_step hstep hp.stage
    · exact unbooted_step hstep hp.unbooted
    · exact checked_step hstep hhash hp.stage hp.unbooted hp.checked
    · exact favoured_step hstep hworks hdelivers hp.stage hp.unbooted hp.checked hp.favoured
    · exact aligned_step hstep hplace hserves hp.stage hp.aligned
    · rw [hlog]
      exact accounted_step hstep hp.stage hp.accounted
    · have hcounted := counted_step hstep hp.counted
      rw [← hlog] at hcounted
      exact hcounted

/-- Where the attempt is over, the flash holds the image, and its digest has decided. -/
theorem Attempting.over {p : Ota × AttemptLog} (h : Attempting port images p)
    (hover : p.1.pc.over = true) :
    p.1.written.length = p.1.params.size ∧
      (OtaCall.setBootPartition ∈ p.1.calls ↔ p.1.Agrees port) := by
  have hplace := h.favoured.place
  cases hpc : p.1.pc with
  | restart | restarted =>
    rw [hpc] at hplace
    have hver := h.checked.booted hplace
    exact ⟨hver.length, fun _ => hver.sha256, fun _ => hplace⟩
  | ended ret =>
    rw [hpc] at hplace
    obtain ⟨hun, hwhole, hdiffers⟩ := hplace
    exact ⟨hwhole, fun hmem => absurd hmem hun, fun hagrees => absurd hagrees hdiffers⟩
  | _ =>
    rw [hpc] at hover
    cases hover

theorem outside_le (pc : OtaPc) : pc.outside ≤ 6 := by
  cases pc <;> exact Nat.le_of_ble_eq_true rfl

/-- How long an attempt lasts. -/
theorem Attempting.steps_le {p : Ota × AttemptLog} (h : Attempting port images p) :
    p.2.steps ≤ 33 * p.1.params.size + 9 := by
  have hdownload := (orderly_of_accounted h.stage h.accounted).steps
  have hcounted : p.2.steps ≤ p.2.download.steps + p.1.pc.outside := h.counted
  have houtside := outside_le p.1.pc
  omega

end Ota

/-! ## What the decoder refuses -/

namespace JsonReader

/-- The other members that `decode_ota_params` asks for are there. -/
def HasOtherParams (r : JsonReader) (object : Option Nat) : Prop :=
  (r.cstring? object (ascii "url") 384).isSome = true ∧
    (∃ size, r.getInt object (ascii "size") = some size ∧ 0 < size ∧ size ≤ 2 ^ 32 - 1) ∧
    (r.cstring? object (ascii "taskId") 40).isSome = true

/-- What `decode_ota_params` accepts. -/
theorem decodeOtaParams_isSome_iff (r : JsonReader) (object : Option Nat) :
    (r.decodeOtaParams object).isSome = true ↔
      r.HasOtherParams object ∧
        ∃ sha256, r.cstring? object (ascii "sha256") 65 = some sha256 ∧
          sha256.bytes.length = 64 := by
  rw [decodeOtaParams, HasOtherParams]
  -- The first member that is missing decides.
  cases r.cstring? object (ascii "url") 384 with
  | none => exact ⟨nofun, fun h => by cases h.1.1⟩
  | some url =>
    cases r.cstring? object (ascii "sha256") 65 with
    | none => exact ⟨nofun, fun ⟨_, _, hsha, _⟩ => by cases hsha⟩
    | some sha256 =>
      by_cases hlen : sha256.bytes.length = 64
      · cases r.getInt object (ascii "size") with
        | none => simp [hlen]
        | some size => cases r.cstring? object (ascii "taskId") 40 <;> simp [hlen]
      · simp [hlen]

/-- A digest that is not 64 hexadecimal digits is refused. -/
def RefusesBadDigest (r : JsonReader) (object : Option Nat) : Prop :=
  ∀ sha256, r.cstring? object (ascii "sha256") 65 = some sha256 → ¬ IsHexText sha256.bytes →
    r.decodeOtaParams object = none

theorem refusesBadDigest_iff (r : JsonReader) (object : Option Nat) :
    r.RefusesBadDigest object ↔
      (r.HasOtherParams object → ∀ sha256, r.cstring? object (ascii "sha256") 65 = some sha256 →
        sha256.bytes.length = 64 → IsHexText sha256.bytes) := by
  constructor
  · intro h hother sha256 hsha hlen
    by_contra hbad
    have haccepted := (r.decodeOtaParams_isSome_iff object).mpr ⟨hother, sha256, hsha, hlen⟩
    rw [h sha256 hsha hbad] at haccepted
    cases haccepted
  · intro h sha256 hsha hbad
    rw [← Option.not_isSome_iff_eq_none, decodeOtaParams_isSome_iff]
    rintro ⟨hother, sha256', hsha', hlen⟩
    cases hsha.symm.trans hsha'
    exact hbad (h hother sha256 hsha hlen)

end JsonReader

namespace Ota

/-- **An attempt where nothing fails ends**, after at most `33 * size + 9` steps and without being
stuck before, whatever the parameters are; and if these have the length of the image and a spelling
of its SHA-256, it ends with the boot switch exactly if the spelling has no upper-case digit. A
digest that is not 64 hexadecimal digits is refused by `decode_ota_params` exactly if it does not
have 64 bytes or another member is refused. -/
theorem accepted_boots_iff (port : OtaPort) (images : Bytes → Bytes) (s₀ : Ota)
    (params : OtaParams) {p : Ota × AttemptLog}
    (h : (attempt port s₀ params).ReachBy (Favourable images) p)
    (hsize : (images p.1.params.url.bytes).length = p.1.params.size)
    (hspells : HexSpelling (port.sha256 (images p.1.params.url.bytes)) p.1.params.sha256.bytes) :
    (p.2.steps ≤ 33 * p.1.params.size + 9 ∧
        (p.1.pc.active = true → ∃ a s', a.ofTask = true ∧ p.1.step port a = some s') ∧
        (p.1.pc.over = true → (OtaCall.setBootPartition ∈ p.1.calls ↔
          ∀ c ∈ p.1.params.sha256.bytes, isUpperHex c = false))) ∧
      ∀ (r : JsonReader) (object : Option Nat), r.RefusesBadDigest object ↔
        (r.HasOtherParams object → ∀ sha256, r.cstring? object (ascii "sha256") 65 = some sha256 →
          sha256.bytes.length = 64 → IsHexText sha256.bytes) := by
  have hrun := attempting_reach h
  refine ⟨⟨hrun.steps_le, exists_step_of_active port, fun hover => ?_⟩,
    JsonReader.refusesBadDigest_iff⟩
  obtain ⟨hwhole, hdecides⟩ := hrun.over hover
  have himage : p.1.written = images p.1.params.url.bytes :=
    hrun.aligned.written.eq_of_length (hwhole.trans hsize.symm)
  rw [hdecides, Agrees, himage, hspells.eq_iff]

/-- A server that has `sampleImage` at every URL. -/
def exactImages (_ : Bytes) : Bytes := sampleImage

/-- An attempt over two connections, to its end if the digest agrees. -/
def attemptSample : List OtaAct :=
  sampleStart.tail ++ sampleResume ++ [.verify, .otaEnd .ok, .setBoot .ok]

/-- The digest of `sampleImage` in lower case. -/
theorem accepted_boots_iff_sample :
    ∃ p, (attempt .sample .init .sample).ReachBy (Favourable exactImages) p ∧
      OtaCall.setBootPartition ∈ p.1.calls := by
  have hrun : ((attempt .sample .init .sample).runBy (Favourable exactImages)
      (attempt .sample .init .sample).init attemptSample).map
      (fun p => p.1.pc.over && decide (p.1.params = .sample)) = some true := by
    decide +kernel
  obtain ⟨p, hp, hcheck⟩ := Lts.exists_reachBy_of_runBy hrun
  obtain ⟨hover, hparams⟩ := Bool.and_eq_true_iff.mp hcheck
  have hsample := of_decide_eq_true hparams
  have hspells : HexSpelling (OtaPort.sample.sha256 sampleImage) OtaParams.sample.sha256.bytes := by
    decide +kernel
  obtain ⟨⟨-, -, hboots⟩, -⟩ := accepted_boots_iff .sample exactImages .init .sample hp
    (by rw [hsample]; rfl) (by rw [hsample]; exact hspells)
  refine ⟨p, hp, (hboots hover).mpr ?_⟩
  rw [hsample]
  decide +kernel

/-- The digest of `sampleImage` in upper case. -/
def upperSample : OtaParams :=
  { OtaParams.sample with
    sha256 :=
      ⟨ascii "2963FB0A6854370C509018B4B8AA885D27C3C28B5CF3A2A44D55C3A35C8DFD9E",
        by decide, by decide⟩ }

/-- The parameters of a request with this digest, as the handler parses them. -/
def requestSample (sha256 : Bytes) : JsonReader :=
  ((JsonReader.new 32).parse (ascii "\x7b\"url\":\"https://files/1.bin\",\"sha256\":\"" ++ sha256 ++
    ascii "\",\"size\":3,\"version\":\"1.1\",\"taskId\":\"t1\"\x7d")).2

/-- A request with the digest in upper case is accepted, and fails after the download; one with 64
other bytes is accepted as well. -/
theorem accepted_fails :
    (∃ p, (attempt .sample .init upperSample).ReachBy (Favourable exactImages) p ∧
      (requestSample upperSample.sha256.bytes).decodeOtaParams (some 0) = some p.1.params ∧
      (exactImages p.1.params.url.bytes).length = p.1.params.size ∧
      HexSpelling (OtaPort.sample.sha256 (exactImages p.1.params.url.bytes))
        p.1.params.sha256.bytes ∧
      p.1.pc.over = true ∧ OtaCall.setBootPartition ∉ p.1.calls) ∧
      ¬ (requestSample (List.replicate 64 122)).RefusesBadDigest (some 0) := by
  constructor
  · have hrun : ((attempt .sample .init upperSample).runBy (Favourable exactImages)
        (attempt .sample .init upperSample).init (attemptSample.dropLast.dropLast)).map
        (fun p => decide (p.1.pc.over = true ∧ p.1.params = upperSample ∧
          OtaCall.setBootPartition ∉ p.1.calls)) = some true := by
      decide +kernel
    obtain ⟨p, hp, hcheck⟩ := Lts.exists_reachBy_of_runBy hrun
    obtain ⟨hover, hparams, hun⟩ := of_decide_eq_true hcheck
    refine ⟨p, hp, ?_, ?_, ?_, hover, hun⟩ <;> rw [hparams]
    · decide +kernel
    · rfl
    · decide +kernel
  · intro h
    have hdecoded : (requestSample (List.replicate 64 122)).decodeOtaParams (some 0) ≠ none := by
      decide +kernel
    have hdigest : (requestSample (List.replicate 64 122)).cstring? (some 0) (ascii "sha256") 65 =
        some ⟨List.replicate 64 122, by decide, by decide⟩ := by
      decide +kernel
    exact hdecoded (h _ hdigest (by decide +kernel))

end Ota

end SoulCloud
