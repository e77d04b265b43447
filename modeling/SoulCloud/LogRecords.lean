import SoulCloud.LogUplink

/-!
# From a log record to an item (`sink_start`, `sink_payload`, `sink_end`)

on9log hands over a record in pieces, and what has come of it so far survives between the
callbacks.

- `LogRecord`, `RecordLog`, `recorded`: the uplink with the records that were emitted and the one
  that is being emitted.
- `LogRecord.entries`: the item a record becomes, or its count as dropped, or neither.
- `SinkItem.Holds`, `Building`: what the sink holds between two callbacks.
- `records_stored`: **every record becomes one item, or is counted once, or was not wanted**.

That the chunks of a record total the `payload_len` of its header is a condition on the runs
(`ChunksExact`).
-/

namespace SoulCloud

open Bytes

/-- A record as on9log emits it, and what `sink_start` found. -/
structure LogRecord where
  header : Option Bytes
  /-- `bin_enabled`. -/
  enabled : Bool
  /-- The ring buffer had room for it. -/
  room : Bool
  chunks : List Bytes

/-- The records that were emitted, and the one that is being emitted. -/
structure RecordLog where
  ended : List LogRecord
  current : Option LogRecord

/-- What a callback makes of the records. -/
def noteRecord {o : LogOptions} (s : LogUplink o) (a : LogAct) (_ : LogUplink o)
    (log : RecordLog) : RecordLog :=
  match a with
  | .sinkStart header memory =>
    { log with current := some ⟨header, s.binEnabled, memory.isSome, []⟩ }
  | .sinkPayload payload =>
    { log with current := log.current.map fun r => { r with chunks := r.chunks ++ [payload] } }
  | .sinkEnd => ⟨log.ended ++ log.current.toList, none⟩
  | _ => log

/-- The log uplink and the records. -/
def recorded (o : LogOptions) : Lts (LogUplink o × RecordLog) LogAct :=
  (uplink o).withHist ⟨[], none⟩ noteRecord

/-- on9log ends a record when its chunks total the `payload_len` of its header. -/
def ChunksExact {o : LogOptions} (p : LogUplink o × RecordLog) : LogAct → Prop
  | .sinkEnd => ∀ r ∈ p.2.current, ∀ header ∈ r.header, header.length = o.headerLen →
      r.chunks.flatten.length = o.payloadLen header
  | _ => True

instance {o : LogOptions} (p : LogUplink o × RecordLog) : DecidablePred (ChunksExact p) := fun a =>
  match a with
  | .sinkEnd => inferInstanceAs (Decidable (∀ r ∈ p.2.current, ∀ header ∈ r.header,
      header.length = o.headerLen → r.chunks.flatten.length = o.payloadLen header))
  | .setTextEnabled _ | .setBinEnabled _ | .sinkStart _ _ | .sinkPayload _ | .textVprintf _ _ _
  | .wake _ | .begin _ | .next _ _ _ => inferInstanceAs (Decidable True)

/-- The header of a record that is to be stored. -/
def LogRecord.wanted (o : LogOptions) (r : LogRecord) : Option Bytes :=
  r.header.filter fun header => decide (header.length = o.headerLen ∧ r.enabled = true)

/-- What an emitted record leaves: an item that is its header and its chunks, or a count, or
nothing. -/
def LogRecord.entries (o : LogOptions) (r : LogRecord) : List UploadCall :=
  match r.wanted o with
  | none => []
  | some header => if r.room then [.accepted .bin (header ++ r.chunks.flatten)] else [.dropped .bin]

/-- What it leaves at its start. -/
def LogRecord.begun (o : LogOptions) (r : LogRecord) : List UploadCall :=
  match r.wanted o with
  | none => []
  | some _ => if r.room then [] else [.dropped .bin]

/-- The call puts a packet into the ring buffer or counts one. -/
def UploadCall.onBin : UploadCall → Bool
  | .accepted .bin _ | .dropped .bin => true
  | _ => false

/-- The items and the counts of `bin_ring` and `bin_dropped`, in order. -/
def binEntries (calls : List UploadCall) : List UploadCall := calls.filter UploadCall.onBin

theorem binEntries_append (calls new : List UploadCall) :
    binEntries (calls ++ new) = binEntries calls ++ binEntries new :=
  List.filter_append _ _

/-! ## The item that is being written -/

/-- So much of `data` as there is room for is in the item, from its beginning. -/
structure SinkItem.Holds (i : SinkItem) (data : Bytes) (total : Nat) : Prop where
  len : i.len = total
  pos : i.pos = min data.length total
  text : i.item.text i.pos = data.take total

namespace SinkItem

theorem text_written {n off k : Nat} (b : Buf n) {d : Bytes} (h : off + d.length ≤ n)
    (hk : k = off + d.length) : (b.write off d h).text k = b.text off ++ d := by
  subst hk
  exact b.text_write h

theorem start_holds (header : Bytes) (payloadLen : Nat) (memory : Nat → UInt8)
    (hheader : 0 < header.length) :
    (start header payloadLen memory hheader).Holds header (header.length + payloadLen) := by
  refine ⟨rfl, (Nat.min_eq_left (Nat.le_add_right _ _)).symm, ?_⟩
  rw [List.take_of_length_le (Nat.le_add_right _ _)]
  have hfits : 0 + header.length ≤ header.length + payloadLen := by omega
  exact text_written _ hfits (Nat.zero_add _).symm

theorem Holds.put {i : SinkItem} {data : Bytes} {total : Nat} (h : i.Holds data total)
    (payload : Bytes) : (i.put payload).Holds (data ++ payload) total := by
  obtain ⟨hlen, hpos, htext⟩ := h
  have hroom : i.len - i.pos = total - data.length := by omega
  -- A chunk that is shorter than the room is copied whole.
  have hcopy : payload.take (if payload.length < i.len - i.pos then payload.length
      else i.len - i.pos) = payload.take (total - data.length) := by
    split_ifs with hshort
    · rw [List.take_of_length_le (Nat.le_refl _), List.take_of_length_le (by omega)]
    · rw [hroom]
  have hcount : (if payload.length < i.len - i.pos then payload.length else i.len - i.pos) =
      min payload.length (total - data.length) := by
    split_ifs <;> omega
  constructor
  · exact hlen
  · show i.pos + (if payload.length < i.len - i.pos then payload.length else i.len - i.pos) = _
    rw [hcount, List.length_append]
    omega
  · have hlength : (payload.take (if payload.length < i.len - i.pos then payload.length
        else i.len - i.pos)).length =
          if payload.length < i.len - i.pos then payload.length else i.len - i.pos := by
      rw [hcopy, List.length_take, hcount, Nat.min_comm]
    have hfits : i.pos + (payload.take (if payload.length < i.len - i.pos then payload.length
        else i.len - i.pos)).length ≤ i.len := by
      rw [hlength, hcount]
      omega
    refine (text_written i.item hfits (congrArg (i.pos + ·) hlength).symm).trans ?_
    rw [htext, hcopy, ← List.take_append]

/-- An item that has got all its bytes. -/
theorem Holds.bytes {i : SinkItem} {data : Bytes} {total : Nat} (h : i.Holds data total)
    (hall : data.length = total) : i.item.bytes = data := by
  have hpos : i.pos = i.len := by
    rw [h.pos, h.len, hall, Nat.min_self]
  have htext := h.text
  rw [hpos, Buf.text, List.take_of_length_le i.item.size.le,
    List.take_of_length_le hall.le] at htext
  exact htext

end SinkItem

/-! ## What the sink holds -/

/-- The sink is free, or it holds the beginning of the record that is being emitted, if that is to
be stored and there was room for it. -/
inductive Building (o : LogOptions) (s : LogUplink o) : Option LogRecord → Prop
  | free (hlock : s.sinkLocked = false) (hitem : s.sinkItem = none) : Building o s none
  | skipped {r : LogRecord} (hlock : s.sinkLocked = true) (hitem : s.sinkItem = none)
      (hskip : r.wanted o = none ∨ r.room = false) : Building o s (some r)
  | writing {r : LogRecord} {header : Bytes} {i : SinkItem} (hlock : s.sinkLocked = true)
      (hitem : s.sinkItem = some i) (hwanted : r.wanted o = some header) (hroom : r.room = true)
      (hholds : i.Holds (header ++ r.chunks.flatten) (header.length + o.payloadLen header)) :
      Building o s (some r)

/-- The records against the uplink: what the sink holds, and what the records have left. -/
structure Recorded {o : LogOptions} (p : LogUplink o × RecordLog) : Prop where
  building : Building o p.1 p.2.current
  entries : binEntries p.1.uploader.calls =
    p.2.ended.flatMap (LogRecord.entries o) ++ p.2.current.toList.flatMap (LogRecord.begun o)

section Records

variable {o : LogOptions} {s s' : LogUplink o} {a : LogAct} {log : RecordLog}

theorem wanted_eq_some {r : LogRecord} {header : Bytes} (h : r.wanted o = some header) :
    r.header = some header ∧ header.length = o.headerLen ∧ r.enabled = true := by
  obtain ⟨hheader, hfull⟩ := Option.filter_eq_some_iff.mp h
  exact ⟨hheader, of_decide_eq_true hfull⟩

/-- The upload task puts nothing into the ring and counts nothing. -/
theorem binEntries_task {u u' : UploadState o} {b : UploadAct} (h : (uploads o).step u b = some u')
    (hu : UploadState.Filled u) (haccept : ∀ k item, b ≠ .accept k item)
    (hdrop : ∀ k, b ≠ .drop k) :
    binEntries u'.calls = binEntries u.calls := by
  have hpublished : ∀ {p : Prop} [Decidable p] {k report data qos m},
      binEntries (if p then [o.published k report data qos m] else []) = [] := by
    intro p _ k report data qos m
    split_ifs <;> rfl
  cases UploadState.step_cases h with
  | accept => exact absurd rfl (haccept _ _)
  | drop => exact absurd rfl (hdrop _)
  | wake => rfl
  | begin =>
    rw [(UploadState.uploadStart_holding (hu.dropped_lt _) _).calls_eq]
    exact (binEntries_append _ _).trans (List.append_nil _)
  | @item k report item rest now first second hpc hring =>
    rw [(UploadState.uploadItem_holding report rest (hu.len_le _ _ hpc) (hu.line_of_ring hring) now
      first second).calls_eq, binEntries_append, binEntries_append, hpublished, hpublished,
      List.append_nil, List.append_nil]
  | @finish k report now first second hpc hring =>
    rw [(UploadState.uploadEnd_holding report (hu.len_le _ _ hpc) now first).calls_eq,
      binEntries_append, hpublished, List.append_nil]

theorem Building.congr {r : Option LogRecord} (h : Building o s r)
    (hlock : s'.sinkLocked = s.sinkLocked) (hitem : s'.sinkItem = s.sinkItem) :
    Building o s' r := by
  cases h with
  | free hfree hnone => exact .free (hlock.trans hfree) (hitem.trans hnone)
  | skipped hheld hnone hskip => exact .skipped (hlock.trans hheld) (hitem.trans hnone) hskip
  | writing hheld hsome hwanted hroom hholds =>
    exact .writing (hlock.trans hheld) (hitem.trans hsome) hwanted hroom hholds

theorem Building.eq_none {r : Option LogRecord} (h : Building o s r)
    (hlock : ¬ s.sinkLocked = true) : r = none := by
  cases h with
  | free => rfl
  | skipped hheld | writing hheld => exact absurd hheld hlock

theorem Building.exists_some {r : Option LogRecord} (h : Building o s r)
    (hlock : s.sinkLocked = true) : ∃ record, r = some record := by
  cases h with
  | free hfree => exact absurd hlock (Bool.eq_false_iff.mp hfree)
  | @skipped record | @writing record => exact ⟨record, rfl⟩

/-- `sink_start`: room for the whole record, or the count of one that is dropped. -/
theorem building_start (s : LogUplink o) (header : Option Bytes) (memory : Option (Nat → UInt8)) :
    Building o (s.sinkStart header memory) (some ⟨header, s.binEnabled, memory.isSome, []⟩) ∧
      binEntries (s.sinkStart header memory).uploader.calls =
        binEntries s.uploader.calls ++
          LogRecord.begun o ⟨header, s.binEnabled, memory.isSome, []⟩ := by
  cases header with
  | none => exact ⟨.skipped rfl rfl (.inl rfl), (List.append_nil _).symm⟩
  | some header =>
    by_cases hstore : header.length = o.headerLen ∧ s.binEnabled = true
    · have hwanted : LogRecord.wanted o ⟨some header, s.binEnabled, memory.isSome, []⟩ =
          some header := Option.filter_eq_some_iff.mpr ⟨rfl, decide_eq_true hstore⟩
      rw [LogUplink.sinkStart, LogRecord.begun, hwanted]
      simp only [dif_pos hstore]
      cases memory with
      | none => exact ⟨.skipped rfl rfl (.inr rfl), binEntries_append _ _⟩
      | some memory =>
        refine ⟨.writing rfl rfl hwanted rfl ?_, (List.append_nil _).symm⟩
        rw [List.flatten_nil, List.append_nil]
        exact SinkItem.start_holds _ _ _ _
    · have hskip : LogRecord.wanted o ⟨some header, s.binEnabled, memory.isSome, []⟩ = none :=
        Option.filter_eq_none_iff.mpr fun h hh => by
          cases hh
          rwa [decide_eq_true_eq]
      rw [LogUplink.sinkStart, LogRecord.begun, hskip]
      simp only [dif_neg hstore]
      exact ⟨.skipped rfl rfl (.inl hskip), (List.append_nil _).symm⟩

/-- `sink_payload`: the chunk goes behind what is there. -/
theorem building_payload {r : LogRecord} (h : Building o s (some r)) (payload : Bytes) :
    Building o (s.sinkPayload payload) (some { r with chunks := r.chunks ++ [payload] }) := by
  cases h with
  | skipped hlock hitem hskip =>
    refine .skipped hlock ?_ hskip
    rw [LogUplink.sinkPayload, hitem]
    rfl
  | @writing _ header i hlock hitem hwanted hroom hholds =>
    have hput : (s.sinkPayload payload).sinkItem = some (i.put payload) := by
      rw [LogUplink.sinkPayload, hitem]
      rfl
    refine .writing hlock hput hwanted hroom ?_
    rw [List.flatten_append, List.flatten_singleton, ← List.append_assoc]
    exact hholds.put payload

/-- `sink_end`: the item is complete, if there is one, and the sink is free. -/
theorem building_end {r : LogRecord} (h : Building o s (some r))
    (hexact : ∀ header ∈ r.header, header.length = o.headerLen →
      r.chunks.flatten.length = o.payloadLen header) :
    Building o s.sinkEnd none ∧ ∃ new, binEntries s.sinkEnd.uploader.calls =
      binEntries s.uploader.calls ++ new ∧ r.begun o ++ new = r.entries o := by
  cases h with
  | skipped hlock hitem hskip =>
    rw [LogUplink.sinkEnd, hitem]
    refine ⟨.free rfl rfl, [], (List.append_nil _).symm, ?_⟩
    rw [List.append_nil, LogRecord.begun, LogRecord.entries]
    rcases hskip with hskip | hroom
    · rw [hskip]
    · simp only [hroom, Bool.false_eq_true, if_false]
  | @writing _ header i hlock hitem hwanted hroom hholds =>
    obtain ⟨hheader, hfull, -⟩ := wanted_eq_some hwanted
    have hbytes : i.item.bytes = header ++ r.chunks.flatten := by
      refine hholds.bytes ?_
      rw [List.length_append, hexact header hheader hfull]
    rw [LogUplink.sinkEnd, hitem]
    refine ⟨.free rfl rfl, [.accepted .bin i.item.bytes], binEntries_append _ _, ?_⟩
    rw [LogRecord.begun, LogRecord.entries, hwanted, hbytes]
    simp only [hroom, if_true, List.nil_append]

theorem binEntries_textVprintf (s : LogUplink o) (own : Bool) (text : Option Bytes) (room : Bool) :
    binEntries (s.textVprintf own text room).uploader.calls = binEntries s.uploader.calls ∧
      (s.textVprintf own text room).sinkLocked = s.sinkLocked ∧
      (s.textVprintf own text room).sinkItem = s.sinkItem := by
  have hquiet : ∀ c : UploadCall, c.onBin = false →
      binEntries (s.uploader.calls ++ [c]) = binEntries s.uploader.calls := by
    intro c hc
    rw [binEntries_append, binEntries, binEntries, List.filter_cons_of_neg (by simp [hc])]
    exact List.append_nil _
  by_cases hon : s.textEnabled = true ∧ own = false
  · simp only [LogUplink.textVprintf, if_pos hon]
    cases text with
    | none => exact ⟨rfl, rfl, rfl⟩
    | some text =>
      dsimp only
      split_ifs
      · exact ⟨hquiet _ rfl, rfl, rfl⟩
      · exact ⟨hquiet _ rfl, rfl, rfl⟩
      · exact ⟨rfl, rfl, rfl⟩
  · simp only [LogUplink.textVprintf, if_neg hon]
    exact ⟨trivial, trivial, trivial⟩

/-- A step that is no callback of the sink. -/
theorem Recorded.other {p : LogUplink o × RecordLog} (h : Recorded p)
    (hlock : s'.sinkLocked = p.1.sinkLocked) (hitem : s'.sinkItem = p.1.sinkItem)
    (hentries : binEntries s'.uploader.calls = binEntries p.1.uploader.calls) :
    Recorded (s', p.2) :=
  ⟨h.building.congr hlock hitem, hentries.trans h.entries⟩

/-- **Step lemma**: the records stay accounted for. -/
theorem recorded_step {p p' : LogUplink o × RecordLog} (h : (recorded o).step p a = some p')
    (hexact : ChunksExact p a) (hu : UploadState.Filled p.1.uploader) (hp : Recorded p) :
    Recorded p' := by
  obtain ⟨s, log⟩ := p
  obtain ⟨s', log'⟩ := p'
  obtain ⟨hst, hnote⟩ := Lts.withHist_step h
  have hstep : s.step a = some s' := hst
  dsimp only at hnote
  subst hnote
  cases a with
  | setTextEnabled enabled | setBinEnabled enabled =>
    cases hstep
    exact hp.other rfl rfl rfl
  | sinkStart header memory =>
    simp only [LogUplink.step] at hstep
    split_ifs at hstep with hlock
    cases hstep
    have hnone : log.current = none := hp.building.eq_none hlock
    obtain ⟨hbuilding, hentries⟩ := building_start s header memory
    refine ⟨hbuilding, hentries.trans ?_⟩
    rw [hp.entries, hnone]
    simp only [noteRecord, Option.toList_none, Option.toList_some, List.flatMap_nil,
      List.flatMap_singleton, List.append_nil]
  | sinkPayload payload =>
    simp only [LogUplink.step] at hstep
    split_ifs at hstep with hlock
    cases hstep
    obtain ⟨r, hr⟩ : ∃ r, log.current = some r := hp.building.exists_some hlock
    have hbuilding := hp.building
    have hentries := hp.entries
    dsimp only at hbuilding hentries
    rw [hr] at hbuilding hentries
    have hnote : noteRecord s (.sinkPayload payload) (s.sinkPayload payload) log =
        { log with current := some { r with chunks := r.chunks ++ [payload] } } := by
      simp only [noteRecord, hr, Option.map_some]
    rw [hnote]
    exact ⟨building_payload hbuilding payload, hentries⟩
  | sinkEnd =>
    simp only [LogUplink.step] at hstep
    split_ifs at hstep with hlock
    cases hstep
    obtain ⟨r, hr⟩ : ∃ r, log.current = some r := hp.building.exists_some hlock
    have hbuilding := hp.building
    have hentries := hp.entries
    dsimp only at hbuilding hentries
    rw [hr] at hbuilding hentries
    obtain ⟨hfree, new, hnew, hleft⟩ := building_end hbuilding (hexact r hr)
    refine ⟨hfree, hnew.trans ?_⟩
    rw [hentries]
    simp only [noteRecord, hr, Option.toList_none, Option.toList_some, List.flatMap_nil,
      List.flatMap_singleton, List.append_nil, List.flatMap_append, List.append_assoc, hleft]
  | textVprintf own text room =>
    cases hstep
    obtain ⟨hentries, hlock, hitem⟩ := binEntries_textVprintf s own text room
    exact hp.other hlock hitem hentries
  | wake isConnected | begin now | next now first second =>
    obtain ⟨u, hu', rfl⟩ := Option.map_eq_some_iff.mp hstep
    refine hp.other rfl rfl (binEntries_task hu' hu ?_ ?_)
    · rintro kind item ⟨⟩
    · rintro kind ⟨⟩

/-- **Run lemma**. -/
theorem recorded_reach {p : LogUplink o × RecordLog} (h : (recorded o).ReachBy ChunksExact p) :
    Recorded p := by
  refine h.invariant ⟨.free rfl rfl, rfl⟩ ?_
  intro p a p' hreach hp hexact hst
  have hu := UploadState.filled_of_reach (LogUplink.reach_uploader (Lts.reach_fst hreach))
  exact recorded_step hst hexact hu hp

/-- **Every record becomes one item, or is counted once, or was not wanted.** In every run in which
the chunks of a record total the `payload_len` of its header: what has gone into the ring buffer
and what has been counted are, in order, what the records that were emitted leave, each an item
that is its header and its chunks, or a count, or nothing; the one that is being emitted is counted
already if there was no room for it. `sink_lock` is held exactly while a record is being emitted,
there is no item left over when none is, and an item holds as much of its own record as has been
copied, never beyond its length. -/
theorem records_stored (o : LogOptions) {p : LogUplink o × RecordLog}
    (h : (recorded o).ReachBy ChunksExact p) :
    binEntries p.1.uploader.calls =
        p.2.ended.flatMap (LogRecord.entries o) ++ p.2.current.toList.flatMap (LogRecord.begun o) ∧
      p.1.sinkLocked = p.2.current.isSome ∧ (p.2.current = none → p.1.sinkItem = none) ∧
      ∀ i, p.1.sinkItem = some i → i.pos ≤ i.len ∧ ∃ r header, p.2.current = some r ∧
        r.wanted o = some header ∧ i.len = header.length + o.payloadLen header ∧
        i.item.text i.pos = (header ++ r.chunks.flatten).take i.len := by
  obtain ⟨hbuilding, hentries⟩ := recorded_reach h
  refine ⟨hentries, ?_⟩
  generalize p.2.current = current at hbuilding
  cases hbuilding with
  | free hlock hitem =>
    refine ⟨hlock, fun _ => hitem, fun i hi => ?_⟩
    rw [hitem] at hi
    cases hi
  | skipped hlock hitem =>
    refine ⟨hlock, fun _ => hitem, fun i hi => ?_⟩
    rw [hitem] at hi
    cases hi
  | @writing r header i hlock hitem hwanted hroom hholds =>
    refine ⟨hlock, nofun, fun j hj => ?_⟩
    obtain rfl : i = j := Option.some.inj (hitem.symm.trans hj)
    exact ⟨i.pos_le, r, header, rfl, hwanted, hholds.len,
      hholds.text.trans (congrArg (List.take · _) hholds.len.symm)⟩

/-- A record in two chunks, one there is no room for, and one that is not wanted any more. -/
def sampleRecords : List LogAct :=
  [.sinkStart (some [165, 16, 0, 3]) (some fun _ => 0), .sinkPayload [1, 2], .sinkPayload [3],
    .sinkEnd, .sinkStart (some [165, 16, 0, 1]) none, .sinkPayload [7], .sinkEnd,
    .setBinEnabled false, .sinkStart (some [165, 16, 0, 1]) (some fun _ => 0), .sinkPayload [8],
    .setBinEnabled true, .sinkEnd]

theorem records_stored_sample :
    ∃ p, (recorded .sample).ReachBy ChunksExact p ∧
      p.1.uploader.ring .bin = [[165, 16, 0, 3, 1, 2, 3]] ∧ p.1.uploader.dropped .bin = 1 ∧
      binEntries p.1.uploader.calls = p.2.ended.flatMap (LogRecord.entries .sample) ++
        p.2.current.toList.flatMap (LogRecord.begun .sample) := by
  have hrun : ((recorded .sample).runBy ChunksExact (recorded .sample).init sampleRecords).map
      (fun p => decide (p.1.uploader.ring .bin = [[165, 16, 0, 3, 1, 2, 3]] ∧
        p.1.uploader.dropped .bin = 1)) = some true := by
    decide +kernel
  obtain ⟨p, hp, hcheck⟩ := Lts.exists_reachBy_of_runBy hrun
  obtain ⟨hring, hdropped⟩ := of_decide_eq_true hcheck
  exact ⟨p, hp, hring, hdropped, (records_stored .sample hp).1⟩

end Records

end SoulCloud
