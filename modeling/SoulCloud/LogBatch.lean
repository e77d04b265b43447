import SoulCloud.LogUpload

/-!
# The batch buffer (`upload_bin`, `upload_text`)

- `Holding s d t`: `t` is `s` with the batch consisting of `d`, one lemma for each operation.
- `uploadStart_holding`, `uploadItem_holding`, `uploadEnd_holding`: what the two loops do, for
  both logs alike.
- `step_calls`: what a step publishes.
- `filled_of_reach`: **every write stays inside the batch**, in every run.
-/

namespace SoulCloud

open Bytes

namespace UploadState

variable {o : LogOptions} {s s' : UploadState o} {a : UploadAct} {kind : LogKind}

/-! ## What is in the batch -/

/-- What is in the batch. -/
def contents (s : UploadState o) : Bytes := s.batch.text s.len

theorem length_contents (h : s.len ≤ o.batchSize) : s.contents.length = s.len := by
  rw [contents, Buf.text, List.length_take, s.batch.size, Nat.min_eq_left h]

/-- `t` is `s` except that the batch consists of `d`. -/
def Holding (s : UploadState o) (d : Bytes) (t : UploadState o) : Prop :=
  ∃ batch, t = { s with batch, len := d.length } ∧ batch.text d.length = d

namespace Holding

variable {t : UploadState o} {d : Bytes}

theorem of_len (h : s.len ≤ o.batchSize) : Holding s s.contents s := by
  refine ⟨s.batch, ?_, ?_⟩
  · rw [length_contents h]
  · rw [length_contents h]
    rfl

theorem calls_eq (h : Holding s d t) : t.calls = s.calls := by
  obtain ⟨batch, rfl, -⟩ := h
  rfl

theorem ring_eq (h : Holding s d t) : t.ring = s.ring := by
  obtain ⟨batch, rfl, -⟩ := h
  rfl

theorem dropped_eq (h : Holding s d t) : t.dropped = s.dropped := by
  obtain ⟨batch, rfl, -⟩ := h
  rfl

theorem pc_eq (h : Holding s d t) : t.pc = s.pc := by
  obtain ⟨batch, rfl, -⟩ := h
  rfl

theorem contents_eq (h : Holding s d t) : t.contents = d := by
  obtain ⟨batch, rfl, htext⟩ := h
  exact htext

/-- An empty batch. -/
theorem empty (s : UploadState o) : Holding s [] { s with len := 0 } := ⟨s.batch, rfl, rfl⟩

theorem copy (h : Holding s d t) {e : Bytes} (hfits : d.length + e.length ≤ o.batchSize) :
    Holding s (d ++ e) (t.copy e) := by
  obtain ⟨batch, rfl, htext⟩ := h
  obtain ⟨batch', hbatch, -⟩ := batch.memcpy_of_le d.length e hfits
  have htext' := Buf.text_memcpy hbatch
  rw [htext] at htext'
  refine ⟨batch', ?_, ?_⟩
  · rw [List.length_append, UploadState.copy, hbatch]
  · rw [List.length_append, htext']

theorem print (h : Holding s d t) {e : Bytes} (hfits : e.length < o.batchSize) :
    Holding s e (t.print e) := by
  obtain ⟨batch, rfl, -⟩ := h
  have hlen : (snprintf o.batchSize e ++ [0]).length = e.length + 1 := by
    rw [snprintf_of_lt hfits, List.length_append, List.length_singleton]
  obtain ⟨batch', hbatch, -⟩ :=
    batch.memcpy_of_le 0 (snprintf o.batchSize e ++ [0]) (by omega)
  refine ⟨batch', ?_, ?_⟩
  · rw [UploadState.print, hbatch]
  · -- The NUL is behind the text.
    have htext := Buf.text_memcpy hbatch
    rw [hlen, Nat.zero_add, Buf.text_zero, List.nil_append, snprintf_of_lt hfits] at htext
    have htake := congrArg (List.take e.length) htext
    rwa [Buf.text, List.take_take, Nat.min_eq_left (Nat.le_succ _), List.take_left] at htake

theorem send (h : Holding s d t) (kind : LogKind) (report : Nat) (item : Bytes) (qos : Nat)
    (m : MqttMoment) :
    Holding (s.call (o.published kind report item qos m)) d (t.send kind report item qos m) := by
  obtain ⟨batch, rfl, htext⟩ := h
  exact ⟨batch, rfl, htext⟩

theorem publishBatch (h : Holding s d t) (kind : LogKind) (report : Nat) (m : MqttMoment) :
    Holding (s.call (o.published kind report d o.qos m)) [] (t.publishBatch kind report m) := by
  obtain ⟨batch, rfl, htext⟩ := h
  refine ⟨batch, ?_, rfl⟩
  simp only [UploadState.publishBatch, htext]
  rfl

theorem goto (h : Holding s d t) (pc : UploadPc) : Holding { s with pc } d { t with pc } := by
  obtain ⟨batch, rfl, htext⟩ := h
  exact ⟨batch, rfl, htext⟩

end Holding

/-- A time in milliseconds has at most 17 digits. -/
theorem length_timeMs (now : BitVec 64) : (decimalInt (timeMs now)).length ≤ 18 := by
  have habs : (timeMs now).natAbs < 10 ^ 17 := by
    have hlt := BitVec.toInt_lt (x := now)
    have hge := BitVec.le_toInt (x := now)
    rw [timeMs, Int.natAbs_tdiv]
    show now.toInt.natAbs / 1000 < 10 ^ 17
    omega
  unfold decimalInt
  split
  · rw [List.length_cons]
    exact Nat.succ_le_succ (decimal_length_of_lt (by decide) habs)
  · exact (decimal_length_of_lt (by decide) (by omega)).trans (Nat.le_succ 17)

theorem length_report_text (o : LogOptions) {dropped : Nat} (h : dropped < 2 ^ 32)
    (now : BitVec 64) :
    0 < (o.report .text dropped now).length ∧ (o.report .text dropped now).length ≤ 63 := by
  have hhead : (ascii "W (").length = 3 := rfl
  have hmiddle : (ascii ") soulcloud: ").length = 13 := rfl
  have hend : (ascii " log lines dropped\n").length = 19 := rfl
  have htime := length_timeMs now
  have hcount := decimal_length h
  simp only [LogOptions.report, List.length_append, hhead, hmiddle, hend]
  omega

/-- A report is never empty, and it fits in a batch. -/
theorem report_fits (o : LogOptions) (kind : LogKind) {dropped : Nat} (h : dropped < 2 ^ 32)
    (now : BitVec 64) :
    0 < (o.report kind dropped now).length ∧
      (o.report kind dropped now).length ≤ o.cap kind := by
  cases kind with
  | bin =>
    have hlen : (o.report .bin dropped now).length = o.headerLen + 4 := by
      rw [LogOptions.report, List.length_append, o.droppedHeader_len]
      rfl
    rw [hlen]
    exact ⟨Nat.succ_pos _, o.dropped_fits⟩
  | text =>
    obtain ⟨hpos, hle⟩ := length_report_text o h now
    exact ⟨hpos, hle.trans (le_trans (by decide) o.batchSize_ge)⟩

/-- Behind what is in a batch there is room for what closes it. -/
theorem closing_fits {d : Bytes} (h : d.length ≤ o.cap kind) (now : BitVec 64) :
    d.length + (o.closing kind now).length ≤ o.batchSize := by
  have hsize := o.batchSize_ge
  cases kind with
  | bin =>
    have hsync := o.timeSync_len o.bootId now
    simp only [LogOptions.cap, timeSyncLen] at h hsync
    simp only [LogOptions.closing]
    omega
  | text => exact h

theorem Holding.closeBin {t : UploadState o} {d : Bytes} (h : Holding s d t)
    (hlen : d.length ≤ o.cap .bin) (report : Nat) (now : BitVec 64) (m : MqttMoment) :
    Holding (s.call (o.published .bin report (d ++ o.closing .bin now) o.qos m)) []
      ((t.copy (o.timeSync o.bootId now)).publishBatch .bin report m) :=
  (h.copy (closing_fits hlen now)).publishBatch .bin report m

theorem Holding.closeText {t : UploadState o} {d : Bytes} (h : Holding s d t) (report : Nat)
    (now : BitVec 64) (m : MqttMoment) :
    Holding (s.call (o.published .text report (d ++ o.closing .text now) o.qos m)) []
      (t.publishBatch .text report m) := by
  rw [LogOptions.closing, List.append_nil]
  exact h.publishBatch .text report m

/-- The counter is taken and, unless it is 0, reported at the start of the batch. -/
theorem uploadStart_holding (h : s.dropped kind < 2 ^ 32) (now : BitVec 64) :
    Holding { s.call (.taken kind (s.dropped kind)) with
        dropped := Function.update s.dropped kind 0
        pc := .drain kind (s.dropped kind) }
      (if 0 < s.dropped kind then o.report kind (s.dropped kind) now else [])
      (s.uploadStart now kind) := by
  obtain ⟨-, hfits⟩ := report_fits o kind h now
  have hempty : Holding _ [] (s.take kind) := .empty { s.call (.taken kind (s.dropped kind)) with
    dropped := Function.update s.dropped kind 0 }
  cases kind with
  | bin =>
    by_cases hpos : 0 < s.dropped .bin
    · simp only [LogOptions.report, LogOptions.cap, List.length_append] at hfits
      have hhead := hempty.copy (e := o.droppedHeader (timeMs now % 2 ^ 32).toNat) (by
        rw [List.length_nil]
        omega)
      have hfilled := hhead.copy (e := le32 (s.dropped .bin)) (by
        rw [List.nil_append]
        omega)
      simp only [uploadStart, uploadBinStart, if_pos hpos]
      exact hfilled.goto _
    · simp only [uploadStart, uploadBinStart, if_neg hpos]
      exact hempty.goto _
  | text =>
    by_cases hpos : 0 < s.dropped .text
    · have hfilled := hempty.print (lt_of_le_of_lt (length_report_text o h now).2
        (lt_of_lt_of_le (by decide) o.batchSize_ge))
      simp only [uploadStart, uploadTextStart, if_pos hpos]
      exact hfilled.goto _
    · simp only [uploadStart, uploadTextStart, if_neg hpos]
      exact hempty.goto _

/-- A batch is published before an item that it has no room for. -/
def Full (s : UploadState o) (kind : LogKind) (item : Bytes) : Prop :=
  o.cap kind < s.len + item.length ∧ 0 < s.len

instance (kind : LogKind) (item : Bytes) : Decidable (s.Full kind item) :=
  inferInstanceAs (Decidable (_ ∧ _))

/-- Where the batch is not published first, the item has room in it. -/
theorem fits_of_not_full {item : Bytes} (hfull : ¬ s.Full kind item)
    (hbig : ¬ o.cap kind < item.length) : s.len + item.length ≤ o.cap kind := by
  by_contra hover
  obtain hzero : s.len = 0 :=
    Nat.eq_zero_of_not_pos fun hpos => hfull ⟨not_le.mp hover, hpos⟩
  exact hbig (by omega)

/-- An item goes into the batch, which may be published before, or out on its own. -/
theorem uploadItem_holding (report : Nat) {item : Bytes} (rest : List Bytes)
    (hlen : s.len ≤ o.cap kind) (hline : kind = .text → item.length < o.lineMax)
    (now : BitVec 64) (first second : MqttMoment) :
    Holding { s with
        ring := Function.update s.ring kind rest
        calls := s.calls ++
          (if s.Full kind item then
            [o.published kind report (s.contents ++ o.closing kind now) o.qos first]
          else []) ++
          if o.cap kind < item.length then [o.published kind 0 item 0 second] else []
        pc := .drain kind (if s.Full kind item then 0 else report) }
      ((if s.Full kind item then [] else s.contents) ++
        if o.cap kind < item.length then [] else item)
      (s.uploadItem report item rest now first second kind) := by
  have hle := hlen.trans (o.cap_le kind)
  have hcontents := length_contents hle
  have hreceived : Holding _ s.contents { s with ring := Function.update s.ring kind rest } :=
    .of_len (s := { s with ring := Function.update s.ring kind rest }) hle
  -- In either case of the flush, what is left has room for an item that is not too big.
  have hroom : ¬ o.cap kind < item.length →
      (if s.Full kind item then [] else s.contents).length + item.length ≤ o.batchSize := by
    intro hbig
    refine le_trans ?_ (o.cap_le kind)
    split
    · rw [List.length_nil, Nat.zero_add]
      exact not_lt.mp hbig
    · next hfull =>
      rw [hcontents]
      exact fits_of_not_full hfull hbig
  cases kind with
  | bin =>
    unfold uploadItem uploadBinItem
    by_cases hfull : s.Full .bin item
    · have hcode : o.cap .bin < s.len + item.length ∧ 0 < s.len := hfull
      have hflushed := hreceived.closeBin (hcontents.trans_le hlen) report now first
      simp only [if_pos hfull, if_pos hcode] at hroom ⊢
      by_cases hbig : o.cap .bin < item.length
      · simp only [if_pos hbig]
        exact (hflushed.send .bin 0 item 0 second).goto _
      · simp only [if_neg hbig, List.append_nil]
        exact (hflushed.copy (hroom hbig)).goto _
    · have hcode : ¬ (o.cap .bin < s.len + item.length ∧ 0 < s.len) := hfull
      simp only [if_neg hfull, if_neg hcode, List.append_nil] at hroom ⊢
      by_cases hbig : o.cap .bin < item.length
      · simp only [if_pos hbig, List.append_nil]
        exact (hreceived.send .bin 0 item 0 second).goto _
      · simp only [if_neg hbig, List.append_nil]
        exact (hreceived.copy (hroom hbig)).goto _
  | text =>
    have hbig : ¬ o.cap .text < item.length :=
      not_lt.mpr ((hline rfl).trans o.lineMax_lt).le
    have hcode : o.cap .text < s.len + item.length ↔ s.Full .text item :=
      ⟨fun hover => ⟨hover, by omega⟩, And.left⟩
    unfold uploadItem uploadTextItem
    simp only [hcode, if_neg hbig, List.append_nil]
    by_cases hfull : s.Full .text item
    · simp only [if_pos hfull] at hroom ⊢
      exact ((hreceived.closeText report now first).copy (hroom hbig)).goto _
    · simp only [if_neg hfull, List.append_nil] at hroom ⊢
      exact (hreceived.copy (hroom hbig)).goto _

/-- Behind a log comes the other one, or the delay. -/
def afterLog : LogKind → UploadPc
  | .bin => .start .text
  | .text => .idle

theorem afterLog_ne_drain (kind k : LogKind) (report : Nat) : afterLog kind ≠ .drain k report := by
  cases kind with
  | bin => nofun
  | text => nofun

/-- What is left in the batch is published. -/
theorem uploadEnd_holding (report : Nat) (hlen : s.len ≤ o.cap kind) (now : BitVec 64)
    (m : MqttMoment) :
    Holding { s with
        calls := s.calls ++
          if 0 < s.len then
            [o.published kind report (s.contents ++ o.closing kind now) o.qos m]
          else []
        pc := afterLog kind }
      [] (s.uploadEnd report now m kind) := by
  have hle := hlen.trans (o.cap_le kind)
  have hcontents := length_contents hle
  have hholds : Holding s s.contents s := .of_len hle
  by_cases hpos : 0 < s.len
  · simp only [if_pos hpos]
    cases kind with
    | bin =>
      simp only [uploadEnd, uploadBinEnd, if_pos hpos]
      exact (hholds.closeBin (hcontents.trans_le hlen) report now m).goto _
    | text =>
      simp only [uploadEnd, uploadTextEnd, if_pos hpos]
      exact (hholds.closeText report now m).goto _
  · have hnil : s.contents = [] := List.eq_nil_of_length_eq_zero (by omega)
    rw [hnil] at hholds
    simp only [if_neg hpos, List.append_nil]
    cases kind with
    | bin =>
      simp only [uploadEnd, uploadBinEnd, if_neg hpos]
      exact hholds.goto _
    | text =>
      simp only [uploadEnd, uploadTextEnd, if_neg hpos]
      exact hholds.goto _

/-! ## Every write stays inside the batch -/

/-- What holds in every run: entries are not empty and lines are short, the batch holds no more
than its capacity and, as long as it carries a count, the report of it comes first. -/
structure Filled (s : UploadState o) : Prop where
  pastEnd : s.pastEnd = false
  dropped_lt : ∀ kind, s.dropped kind < 2 ^ 32
  item_ne : ∀ kind, ∀ item ∈ s.ring kind, item ≠ []
  line_lt : ∀ line ∈ s.ring .text, line.length < o.lineMax
  len_le : ∀ kind report, s.pc = .drain kind report → s.len ≤ o.cap kind
  lead : ∀ kind report, s.pc = .drain kind report → 0 < report →
    0 < s.len ∧ ∃ now, o.report kind report now <+: s.contents

theorem Filled.line_of_ring (h : Filled s) {item : Bytes} {rest : List Bytes}
    (hring : s.ring kind = item :: rest) : kind = .text → item.length < o.lineMax := by
  rintro rfl
  exact h.line_lt item (hring ▸ List.mem_cons_self)

theorem Filled.init : Filled (.init o) where
  pastEnd := rfl
  dropped_lt _ := show 0 < 2 ^ 32 by decide
  item_ne _ _ h := by cases h
  line_lt _ h := by cases h
  len_le _ _ h := by cases h
  lead _ _ h := by cases h

/-- A ring that has been updated holds what it held or what was put there. -/
theorem mem_update {β : Type} {f : LogKind → List β} {kind k : LogKind} {xs : List β} {x : β}
    (h : x ∈ Function.update f kind xs k) : x ∈ f k ∨ k = kind ∧ x ∈ xs := by
  by_cases hk : k = kind
  · subst hk
    rw [Function.update_self] at h
    exact .inr ⟨rfl, h⟩
  · rw [Function.update_of_ne hk] at h
    exact .inl h

theorem update_lt {f : LogKind → Nat} {n bound : Nat} (hf : ∀ k, f k < bound) (hn : n < bound)
    (kind k : LogKind) : Function.update f kind n k < bound := by
  by_cases hk : k = kind
  · subst hk
    rwa [Function.update_self]
  · rw [Function.update_of_ne hk]
    exact hf k

theorem Filled.accept (h : Filled s) {item : Bytes} (hitem : item ≠ [])
    (hline : kind = .text → item.length < o.lineMax) : Filled (s.accept kind item) where
  pastEnd := h.pastEnd
  dropped_lt := h.dropped_lt
  item_ne k x hx := by
    rcases mem_update hx with hx | ⟨rfl, hx⟩
    · exact h.item_ne k x hx
    · rcases List.mem_append.mp hx with hx | hx
      · exact h.item_ne k x hx
      · rwa [List.mem_singleton.mp hx]
  line_lt x hx := by
    rcases mem_update hx with hx | ⟨rfl, hx⟩
    · exact h.line_lt x hx
    · rcases List.mem_append.mp hx with hx | hx
      · exact h.line_lt x hx
      · rw [List.mem_singleton.mp hx]
        exact hline rfl
  len_le := h.len_le
  lead := h.lead

theorem Filled.drop (h : Filled s) : Filled (s.drop kind) where
  pastEnd := h.pastEnd
  dropped_lt := update_lt h.dropped_lt (Nat.mod_lt _ (by decide)) kind
  item_ne := h.item_ne
  line_lt := h.line_lt
  len_le := h.len_le
  lead := h.lead

/-- The task is not filling a batch any more. -/
theorem Filled.goto (h : Filled s) {pc : UploadPc} (hpc : ∀ kind report, pc ≠ .drain kind report) :
    Filled { s with pc } where
  pastEnd := h.pastEnd
  dropped_lt := h.dropped_lt
  item_ne := h.item_ne
  line_lt := h.line_lt
  len_le k r hdrain := absurd hdrain (hpc k r)
  lead k r hdrain := absurd hdrain (hpc k r)

theorem Filled.of_holding {t : UploadState o} {d : Bytes} (ht : Holding s d t)
    (hpast : s.pastEnd = false) (hdropped : ∀ kind, s.dropped kind < 2 ^ 32)
    (hitem : ∀ kind, ∀ item ∈ s.ring kind, item ≠ [])
    (hline : ∀ line ∈ s.ring .text, line.length < o.lineMax)
    (hlen : ∀ kind report, s.pc = .drain kind report → d.length ≤ o.cap kind)
    (hlead : ∀ kind report, s.pc = .drain kind report → 0 < report →
      0 < d.length ∧ ∃ now, o.report kind report now <+: d) : Filled t := by
  have hcontents := ht.contents_eq
  obtain ⟨batch, rfl, -⟩ := ht
  refine ⟨hpast, hdropped, hitem, hline, hlen, ?_⟩
  rw [hcontents]
  exact hlead

theorem Filled.start (h : Filled s) (now : BitVec 64) : Filled (s.uploadStart now kind) := by
  have hlt := h.dropped_lt kind
  obtain ⟨hpos, hfits⟩ := report_fits o kind hlt now
  refine .of_holding (uploadStart_holding hlt now) h.pastEnd
    (update_lt h.dropped_lt (by decide) kind) h.item_ne h.line_lt ?_ ?_
  · intro k r hpc
    cases hpc
    split
    · exact hfits
    · exact Nat.zero_le _
  · intro k r hpc hreport
    cases hpc
    rw [if_pos hreport]
    exact ⟨hpos, now, List.prefix_refl _⟩

theorem Filled.item (h : Filled s) {report : Nat} {item : Bytes} {rest : List Bytes}
    (hpc : s.pc = .drain kind report) (hring : s.ring kind = item :: rest) (now : BitVec 64)
    (first second : MqttMoment) :
    Filled (s.uploadItem report item rest now first second kind) := by
  have hline := h.line_of_ring hring
  have hlen := h.len_le kind report hpc
  have hcontents := length_contents (hlen.trans (o.cap_le kind))
  have hrest : ∀ k, ∀ x ∈ Function.update s.ring kind rest k, x ∈ s.ring k := by
    intro k x hx
    rcases mem_update hx with hx | ⟨hk, hx⟩
    · exact hx
    · rw [hk, hring]
      exact List.mem_cons_of_mem _ hx
  refine .of_holding (uploadItem_holding report rest hlen hline now first second) h.pastEnd
    h.dropped_lt (fun k x hx => h.item_ne k x (hrest k x hx))
    (fun x hx => h.line_lt x (hrest .text x hx)) ?_ ?_
  · intro k r hpc'
    cases hpc'
    by_cases hfull : s.Full kind item <;> by_cases hbig : o.cap kind < item.length
    · rw [if_pos hfull, if_pos hbig]
      exact Nat.zero_le _
    · rw [if_pos hfull, if_neg hbig]
      exact not_lt.mp hbig
    · rw [if_neg hfull, if_pos hbig, List.append_nil]
      exact hcontents.trans_le hlen
    · rw [if_neg hfull, if_neg hbig, List.length_append, hcontents]
      exact fits_of_not_full hfull hbig
  · intro k r hpc' hreport
    cases hpc'
    by_cases hfull : s.Full kind item
    · rw [if_pos hfull] at hreport
      exact absurd hreport (lt_irrefl 0)
    · rw [if_neg hfull] at hreport ⊢
      -- The report is still in the batch, in front of the item.
      obtain ⟨hne, now, hbegins⟩ := h.lead kind report hpc hreport
      rw [List.length_append, hcontents, if_neg hfull]
      exact ⟨Nat.add_pos_left hne _, now, hbegins.trans (List.prefix_append _ _)⟩

theorem Filled.finish (h : Filled s) {report : Nat} (hpc : s.pc = .drain kind report)
    (now : BitVec 64) (m : MqttMoment) : Filled (s.uploadEnd report now m kind) :=
  .of_holding (uploadEnd_holding report (h.len_le kind report hpc) now m) h.pastEnd h.dropped_lt
    h.item_ne h.line_lt (fun k r hdrain => absurd hdrain (afterLog_ne_drain kind k r))
    fun k r hdrain => absurd hdrain (afterLog_ne_drain kind k r)

theorem filled_step (h : (uploads o).step s a = some s') (hs : Filled s) : Filled s' := by
  cases step_cases h with
  | accept hitem hline => exact hs.accept hitem hline
  | drop => exact hs.drop
  | @wake isConnected hpc =>
    refine hs.goto fun k r => ?_
    split
    · nofun
    · nofun
  | begin hpc => exact hs.start _
  | item hpc hring => exact hs.item hpc hring _ _ _
  | finish hpc hring => exact hs.finish hpc _ _

/-- **Nothing is ever written behind the batch**, whatever is logged and published. -/
theorem filled_of_reach (h : (uploads o).Reach s) : Filled s :=
  h.invariant .init fun _ hs _ hstep => filled_step hstep hs

/-! ## What a step publishes -/

/-- The next step of the task publishes the batch. -/
def Flushes (s : UploadState o) (kind : LogKind) : Prop :=
  match s.ring kind with
  | [] => 0 < s.len
  | item :: _ => s.Full kind item

/-- The calls that a step can add. -/
inductive NewCall (s : UploadState o) (a : UploadAct) : UploadCall → Prop
  | accepted {k : LogKind} {item : Bytes} : NewCall s a (.accepted k item)
  | dropped {k : LogKind} : NewCall s a (.dropped k)
  | taken {k : LogKind} {count : Nat} : NewCall s a (.taken k count)
  | batch {k : LogKind} {report : Nat} {now : BitVec 64} {first second : MqttMoment}
      (ha : a = .next now first second) (hpc : s.pc = .drain k report) (hflush : s.Flushes k) :
      NewCall s a (o.published k report (s.contents ++ o.closing k now) o.qos first)
  | alone {k : LogKind} {item : Bytes} {m : MqttMoment} :
      NewCall s a (o.published k 0 item 0 m)

theorem step_calls (h : (uploads o).step s a = some s') (hs : Filled s) :
    ∃ calls, s'.calls = s.calls ++ calls ∧ ∀ c ∈ calls, NewCall s a c := by
  cases step_cases h with
  | accept hitem hline => exact ⟨_, rfl, List.forall_mem_singleton.mpr .accepted⟩
  | drop => exact ⟨_, rfl, List.forall_mem_singleton.mpr .dropped⟩
  | wake hpc => exact ⟨[], (List.append_nil _).symm, List.forall_mem_nil _⟩
  | begin hpc =>
    exact ⟨_, (uploadStart_holding (hs.dropped_lt _) _).calls_eq,
      List.forall_mem_singleton.mpr .taken⟩
  | @item k report item rest now first second hpc hring =>
    have hcalls := (uploadItem_holding report rest (hs.len_le _ _ hpc) (hs.line_of_ring hring) now
      first second).calls_eq
    rw [List.append_assoc] at hcalls
    refine ⟨_, hcalls, List.forall_mem_append.mpr ⟨?_, ?_⟩⟩
    · split
      · next hfull =>
        have hflush : s.Flushes k := by
          rw [Flushes, hring]
          exact hfull
        exact List.forall_mem_singleton.mpr (.batch rfl hpc hflush)
      · exact List.forall_mem_nil _
    · split
      · exact List.forall_mem_singleton.mpr .alone
      · exact List.forall_mem_nil _
  | @finish k report now first second hpc hring =>
    refine ⟨_, (uploadEnd_holding report (hs.len_le _ _ hpc) now first).calls_eq, ?_⟩
    split
    · next hpos =>
      have hflush : s.Flushes k := by
        rw [Flushes, hring]
        exact hpos
      exact List.forall_mem_singleton.mpr (.batch rfl hpc hflush)
    · exact List.forall_mem_nil _

end UploadState

end SoulCloud
