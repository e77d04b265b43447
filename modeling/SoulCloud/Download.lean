import SoulCloud.Verification

/-!
# A resumed download writes what an uninterrupted one would

A server holds one image for each URL. On each connection it may refuse, answer
any status, ignore the `Range` header (200, from byte 0) or answer 206 from the
requested offset; then it sends the image from there, in any chunks, for as long
as it likes.

- `served`: the update component with the server's place in the image as a
  history variable, set by the headers and moved by the bytes it sends.
- `Serves`: what is sent is the image from that place on.
- `Aligned`: while a body is read the server's place and the length of what has
  been written agree; at a resume point the `Range` header makes them agree again
  (`requestedOffset_rangeHeader`).
- `download_exact`: when `download` returns `ESP_OK` it has written exactly the
  first `params.size` bytes.
-/

namespace SoulCloud

open Bytes Word

/-- The first byte a `Range` header asks for: the number between "bytes=" and "-". -/
def requestedOffset (range : Bytes) : Nat := ofDecimal ((range.drop 6).takeWhile (· != 45))

/-- Where in the image the body of an answer starts. -/
def bodyStart (range : Option Bytes) (status : Int) : Nat :=
  match range with
  | some text => if status = 206 then requestedOffset text else 0
  | none => 0

/-- The bytes of a body that a step brings. -/
def OtaAct.body : OtaAct → Bytes
  | .read data => data
  | _ => []

/-- The server's place in the image after a step. -/
def serverMoves (s : Ota) (a : OtaAct) (_ : Ota) (pos : Nat) : Nat :=
  match a, s.pc with
  | .fetch status, .fetch d => bodyStart (Ota.requestRange d) (status.getD 0)
  | _, _ => pos + a.body.length

/-- The update component and the place its server has reached. -/
def served (port : OtaPort) : Lts (Ota × Nat) OtaAct := (ota port).withHist 0 serverMoves

/-- What the server sends is the image at the URL, from its place on. -/
def Serves (images : Bytes → Bytes) (p : Ota × Nat) (a : OtaAct) : Prop :=
  a.body <+: (images p.1.params.url.bytes).drop p.2

instance (images : Bytes → Bytes) (p : Ota × Nat) (a : OtaAct) : Decidable (Serves images p a) :=
  inferInstanceAs (Decidable (_ <+: _))

/-- The server answers at once and sends all it is asked for. -/
def Uninterrupted (port : OtaPort) (s : Ota) : OtaAct → Prop
  | .connect client => client = true
  | .fetch status => status = some 200
  | .read data => ∀ d total, s.pc = .read d total → data.length = Ota.want port s d total
  | _ => True

/-- The server's place against what has been written, while a body is read. -/
def OtaPc.Aligned (image written : Bytes) (pos : Nat) : OtaPc → Prop
  | .check _ _ | .read _ _ => pos = written.length
  | .write _ _ data => data <+: image.drop written.length ∧ pos = written.length + data.length
  | _ => True

namespace Ota

variable {port : OtaPort} {images : Bytes → Bytes} {p p' : Ota × Nat} {a : OtaAct}

/-- The server reads the offset that the device wrote. -/
theorem requestedOffset_rangeHeader {offset : Nat} (h : offset < 2 ^ 32) :
    requestedOffset (rangeHeader offset) = offset := by
  have hlen := decimal_length h
  have hbytes : (ascii "bytes=").length = 6 := by decide
  have hdash : ascii "-" = [45] := by decide
  have hheader : rangeHeader offset = ascii "bytes=" ++ (decimal offset ++ [45]) := by
    rw [← hdash, ← List.append_assoc]
    refine snprintf_of_lt ?_
    rw [hdash, List.length_append, List.length_append, hbytes, List.length_singleton]
    omega
  have hdigits : (decimal offset ++ [45]).takeWhile (· != 45) = decimal offset := by
    rw [List.takeWhile_append_of_pos]
    · simp
    · intro c hc
      have hne : c ≠ 45 := by
        rintro rfl
        exact absurd (decimal_digit hc).1 (by decide)
      simpa using hne
  unfold requestedOffset
  rw [hheader, ← hbytes, List.drop_left, hdigits, ofDecimal_decimal]

/-- An accepted answer starts where the download stopped. -/
theorem bodyStart_of_statusOk {d : Attempt} {status : Int} (hoff : d.offset < 2 ^ 32)
    (h : statusOk d status) : bodyStart (requestRange d) status = d.offset := by
  unfold statusOk at h
  by_cases hzero : d.offset = 0
  · -- The first connection sends no header and starts at byte 0.
    have hnone : requestRange d = none := if_neg (by omega)
    rw [hnone, hzero]
    rfl
  · rw [if_neg hzero] at h
    have hsome : requestRange d = some (rangeHeader d.offset) := if_pos (by omega)
    rw [hsome, h]
    exact requestedOffset_rangeHeader hoff

/-- The flash holds the beginning of the image, and the server is where it ends. -/
structure Aligned (images : Bytes → Bytes) (p : Ota × Nat) : Prop where
  written : p.1.written <+: images p.1.params.url.bytes
  place : p.1.pc.Aligned (images p.1.params.url.bytes) p.1.written p.2

theorem append_isPrefix {image written data : Bytes} (hw : written <+: image)
    (hd : data <+: image.drop written.length) : written ++ data <+: image := by
  obtain ⟨rest, rfl⟩ := hw
  rw [List.drop_left] at hd
  exact (List.prefix_append_right_inj written).mpr hd

theorem afterTransfer_aligned {image written : Bytes} {pos : Nat} (d : Attempt) (readLen : Int) :
    (afterTransfer d readLen).Aligned image written pos := by
  rcases afterTransfer_cases d readLen with ⟨_, h⟩ | ⟨_, -, h⟩ <;> rw [h] <;> trivial

theorem aligned_step (h : OtaStep port p.1 a p'.1) (hpos : p'.2 = serverMoves p.1 a p'.1 p.2)
    (hserves : Serves images p a) (hstage : p.1.Stage) (hp : Aligned images p) :
    Aligned images p' := by
  obtain ⟨s, pos⟩ := p
  obtain ⟨s', pos'⟩ := p'
  dsimp only at h hpos hstage
  obtain ⟨hwritten, hplace⟩ := hp
  dsimp only at hwritten hplace
  refine ⟨?_, ?_⟩ <;> dsimp only
  · cases h with
    | start | otaBegin => exact List.nil_prefix
    | write hpc =>
      rw [hpc] at hplace
      simp only [reportProgress_params, reportProgress_written]
      exact append_isPrefix hwritten hplace.1
    | _ => exact hwritten
  · cases h with
    | startRunning | cancelRefused | cancel | cancelStore =>
      rw [hpos]
      exact hplace
    | @start params created => cases created <;> trivial
    | connectFailed | close =>
      dsimp only
      exact afterTransfer_aligned _ _
    | @fetch d status hpc hstatus =>
      -- The resume point: the header brings the server to the end of what is written.
      rw [stage_iff hpc] at hstage
      have hsize := hstage.size_le
      have hle := hstage.le
      have hstart : pos' = bodyStart (requestRange d) (status.getD 0) := by
        rw [hpos]
        unfold serverMoves
        rw [hpc]
      show pos' = s.written.length
      rw [hstart, bodyStart_of_statusOk (by omega) hstatus, hstage.length]
    | check hpc =>
      rw [hpc] at hplace
      rw [hpos]
      exact hplace
    | @read d total data hpc =>
      rw [hpc] at hplace
      have hat : pos = s.written.length := hplace
      constructor
      · show data <+: List.drop s.written.length _
        rw [← hat]
        exact hserves
      · show pos' = s.written.length + data.length
        rw [hpos, ← hat]
        rfl
    | write hpc =>
      rw [hpc] at hplace
      simp only [OtaPc.Aligned, reportProgress_written]
      rw [List.length_append, hpos]
      exact hplace.2
    | _ => trivial

theorem aligned_reach {g : Ota × Nat → OtaAct → Prop} (hg : ∀ p a, g p a → Serves images p a)
    (h : (served port).ReachBy g p) : Aligned images p := by
  refine h.invariant (I := Aligned images) ?_ ?_
  · exact ⟨List.nil_prefix, trivial⟩
  · intro p a p' hreach hp hga hst
    obtain ⟨hst, hpos⟩ := Lts.withHist_step hst
    have hstage := stage_reach (Lts.reach_fst hreach)
    exact aligned_step (otaStep_cases hst) hpos (hg _ _ hga) hstage hp

/-- A download that has returned `ESP_OK` has written the beginning of the image. -/
theorem written_of_downloaded {g : Ota × Nat → OtaAct → Prop}
    (hg : ∀ p a, g p a → Serves images p a) (h : (served port).ReachBy g p) {digest : Buf 32}
    (hret : p.1.pc = .verify digest) :
    p.1.written = (images p.1.params.url.bytes).take p.1.params.size ∧
      p.1.written.length = p.1.params.size := by
  have hstage := stage_reach (Lts.reach_fst h)
  rw [stage_iff hret] at hstage
  obtain ⟨hwritten, -⟩ := aligned_reach hg h
  refine ⟨?_, hstage.length⟩
  rw [← hstage.length]
  exact List.prefix_iff_eq_take.mp hwritten

/-- **A resumed download is exact.** When `download` returns `ESP_OK`, however often it was
interrupted, what it wrote is the first `params.size` bytes of the image at its URL, and
the same as any uninterrupted download with these parameters writes. -/
theorem download_exact (port : OtaPort) (images : Bytes → Bytes) {p : Ota × Nat}
    (h : (served port).ReachBy (Serves images) p) {digest : Buf 32}
    (hret : p.1.pc = .verify digest) :
    p.1.written = (images p.1.params.url.bytes).take p.1.params.size ∧
      p.1.written.length = p.1.params.size ∧
      ∀ q digest', (served port).ReachBy
          (fun q a => Serves images q a ∧ Uninterrupted port q.1 a) q →
        q.1.pc = .verify digest' → q.1.params = p.1.params → q.1.written = p.1.written := by
  obtain ⟨hwritten, hlen⟩ := written_of_downloaded (fun _ _ hg => hg) h hret
  refine ⟨hwritten, hlen, ?_⟩
  intro q digest' hq hret' hparams
  obtain ⟨hwhole, -⟩ := written_of_downloaded (fun _ _ hg => hg.1) hq hret'
  rw [hwhole, hwritten, hparams]

/-- A server that has `sampleImage` and more at every URL. -/
def sampleImages (_ : Bytes) : Bytes := sampleImage ++ [7, 7]

/-- An update whose connection is dropped after two bytes. -/
theorem download_exact_resumed :
    ∃ p, (served .sample).ReachBy (Serves sampleImages) p ∧ (∃ digest, p.1.pc = .verify digest) ∧
      p.1.written = sampleImage := by
  have hrun : ((served .sample).runBy (Serves sampleImages) (served .sample).init
      (sampleStart ++ sampleResume)).map (fun p => match p.1.pc with
        | .verify _ => decide (p.1.params = .sample)
        | _ => false) = some true := by
    decide +kernel
  obtain ⟨p, hp, hcheck⟩ := Lts.exists_reachBy_of_runBy hrun
  split at hcheck
  · rename_i digest hret
    obtain ⟨hwritten, -, -⟩ := download_exact .sample sampleImages hp hret
    refine ⟨p, hp, ⟨digest, hret⟩, ?_⟩
    rw [hwritten, of_decide_eq_true hcheck]
    rfl
  · cases hcheck

end Ota

end SoulCloud
