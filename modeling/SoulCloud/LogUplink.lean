import SoulCloud.LogBatch

/-!
# The log uplink (`sc_log_uplink`)

Log entries come in through the sink of on9log and the hook of esp_log, on whatever task logs.
`uplink o` interleaves them with the upload task.

- `SinkItem`, `LogUplink`: a packet that is being written, and the object as a whole.
- `sinkStart`, `sinkPayload`, `sinkEnd`, `textVprintf`: what the logging tasks call.
- `reachBy_uploader`: what the rings and the upload task see is a run of `uploads o`.
-/

namespace SoulCloud

open Bytes

/-- The packet that is being written by the sink. -/
structure SinkItem where
  /-- `sink_item_len`. -/
  len : Nat
  /-- `sink_item`. -/
  item : Buf len
  /-- `sink_item_pos`. -/
  pos : Nat
  pos_pos : 0 < pos
  pos_le : pos ≤ len

/-- The room that `sink_start` has been given for a packet, with the header copied into it. -/
def SinkItem.start (header : Bytes) (payloadLen : Nat) (memory : Nat → UInt8)
    (hheader : 0 < header.length) : SinkItem :=
  let total := header.length + payloadLen
  let item : Buf total := ⟨List.ofFn fun i : Fin total => memory i, List.length_ofFn⟩
  ⟨total, item.write 0 header (by omega), header.length, hheader, Nat.le_add_right _ _⟩

/-- Copy as much of a payload as there is room for. -/
def SinkItem.put (i : SinkItem) (payload : Bytes) : SinkItem :=
  let room := i.len - i.pos
  let copyLen := if payload.length < room then payload.length else room
  have hlen : (payload.take copyLen).length = copyLen := by
    rw [List.length_take]
    grind
  have hroom : copyLen ≤ room := by grind
  have hpos := i.pos_le
  ⟨i.len, i.item.write i.pos (payload.take copyLen) (by omega), i.pos + copyLen,
    Nat.add_pos_left i.pos_pos _, by omega⟩

/-- `sc_log_uplink`. -/
structure LogUplink (o : LogOptions) where
  uploader : UploadState o
  textEnabled : Bool
  binEnabled : Bool
  /-- `sink_lock` is held. -/
  sinkLocked : Bool
  sinkItem : Option SinkItem

inductive LogAct where
  | setTextEnabled (enabled : Bool)
  | setBinEnabled (enabled : Bool)
  /-- `sink_start`, with what is in the memory that the ring buffer gives if it has room. -/
  | sinkStart (header : Option Bytes) (memory : Option (Nat → UInt8))
  | sinkPayload (payload : Bytes)
  | sinkEnd
  /-- `text_vprintf`: whether the upload task itself logs, the text if `vsnprintf` can make one,
  and whether the ring buffer has room. -/
  | textVprintf (own : Bool) (text : Option Bytes) (room : Bool)
  /-- A step of the upload task. -/
  | wake (isConnected : Bool)
  | begin (now : BitVec 64)
  | next (now : BitVec 64) (first second : MqttMoment)

/-- What `text_vprintf` puts into the ring buffer, formatted into a
`char[CONFIG_SOULCLOUD_LOG_TEXT_LINE_MAX]`. -/
def LogOptions.lineItem (o : LogOptions) (text : Bytes) : Bytes :=
  let itemLen := if text.length < o.lineMax then text.length else o.lineMax - 1
  let line := snprintf o.lineMax text
  -- Cut lines still end the line.
  let line := if o.lineMax ≤ text.length then line.set (itemLen - 1) 10 else line
  line.take itemLen

namespace LogUplink

variable {o : LogOptions} (s : LogUplink o)

def init (o : LogOptions) : LogUplink o where
  uploader := .init o
  textEnabled := true
  binEnabled := true
  sinkLocked := false
  sinkItem := none

/-- `sink_start`. -/
def sinkStart (header : Option Bytes) (memory : Option (Nat → UInt8)) : LogUplink o :=
  let locked := { s with sinkLocked := true, sinkItem := none }
  match header with
  | none => locked
  | some header =>
    -- Plain-text records and a disabled uplink are not stored.
    if h : header.length = o.headerLen ∧ s.binEnabled = true then
      match memory with
      -- The failed reservation counts as a drop when the counter is incremented.
      | none => { locked with uploader := s.uploader.drop .bin }
      | some memory =>
        { locked with
          sinkItem := some (.start header (o.payloadLen header) memory (h.1 ▸ o.headerLen_pos)) }
    else locked

/-- `sink_payload`. -/
def sinkPayload (payload : Bytes) : LogUplink o :=
  { s with sinkItem := s.sinkItem.map (·.put payload) }

/-- `sink_end`. -/
def sinkEnd : LogUplink o :=
  match s.sinkItem with
  | none => { s with sinkLocked := false }
  | some i =>
    { s with
      uploader := s.uploader.accept .bin i.item.bytes
      sinkLocked := false
      sinkItem := none }

/-- `text_vprintf`, without the output of the hook before it. -/
def textVprintf (own : Bool) (text : Option Bytes) (room : Bool) : LogUplink o :=
  -- The upload task's own logs are not uploaded: that would feed itself.
  if s.textEnabled = true ∧ own = false then
    match text with
    | none => s
    | some text =>
      if 0 < text.length then
        { s with uploader :=
            if room then s.uploader.accept .text (o.lineItem text) else s.uploader.drop .text }
      else s
  else s

/-- A step of the upload task. -/
def task (a : UploadAct) : Option (LogUplink o) :=
  (s.uploader.step a).map fun uploader => { s with uploader }

/-- The step function. -/
def step (s : LogUplink o) : LogAct → Option (LogUplink o)
  | .setTextEnabled enabled => some { s with textEnabled := enabled }
  | .setBinEnabled enabled => some { s with binEnabled := enabled }
  -- `sink_lock` is held from `sink_start` to `sink_end`.
  | .sinkStart header memory => if s.sinkLocked then none else some (s.sinkStart header memory)
  | .sinkPayload payload => if s.sinkLocked then some (s.sinkPayload payload) else none
  | .sinkEnd => if s.sinkLocked then some s.sinkEnd else none
  | .textVprintf own text room => some (s.textVprintf own text room)
  | .wake isConnected => s.task (.wake isConnected)
  | .begin now => s.task (.begin now)
  | .next now first second => s.task (.next now first second)

end LogUplink

/-- All the tasks that log, and the upload task. -/
def uplink (o : LogOptions) : Lts (LogUplink o) LogAct where
  init := .init o
  step := LogUplink.step

/-- What the rings and the upload task see of a step. -/
def LogAct.task? : LogAct → Option UploadAct
  | .wake isConnected => some (.wake isConnected)
  | .begin now => some (.begin now)
  | .next now first second => some (.next now first second)
  | _ => none

namespace LogUplink

variable {o : LogOptions} {s s' : LogUplink o} {a : LogAct}

/-- A line that is logged is neither empty nor as long as the buffer it is formatted in. -/
theorem length_lineItem {text : Bytes} (h : 0 < text.length) :
    0 < (o.lineItem text).length ∧ (o.lineItem text).length < o.lineMax := by
  have hmax := o.lineMax_ge
  have hlen : (snprintf o.lineMax text).length = min (o.lineMax - 1) text.length :=
    List.length_take
  by_cases hshort : text.length < o.lineMax
  · simp only [LogOptions.lineItem, if_pos hshort, if_neg (not_le.mpr hshort), List.length_take,
      hlen]
    omega
  · simp only [LogOptions.lineItem, if_neg hshort, if_pos (not_lt.mp hshort), List.length_take,
      List.length_set, hlen]
    omega

theorem accept_step {u : UploadState o} {kind : LogKind} {item : Bytes} (hitem : 0 < item.length)
    (hline : kind = .text → item.length < o.lineMax) :
    u.step (.accept kind item) = some (u.accept kind item) := by
  refine if_neg ?_
  rintro (rfl | ⟨hkind, hlong⟩)
  · exact lt_irrefl 0 hitem
  · exact not_le.mpr (hline hkind) hlong

/-- What a step does to the rings and the upload task: nothing, or a step of theirs. -/
theorem uploader_step (h : (uplink o).step s a = some s') :
    s'.uploader = s.uploader ∨ ∃ b, s.uploader.step b = some s'.uploader ∧
      (a.task? = some b ∨ (∃ kind item, b = .accept kind item) ∨ ∃ kind, b = .drop kind) := by
  have hstep : s.step a = some s' := h
  cases a with
  | setTextEnabled enabled =>
    cases hstep
    exact .inl rfl
  | setBinEnabled enabled =>
    cases hstep
    exact .inl rfl
  | sinkStart header memory =>
    simp only [step] at hstep
    split_ifs at hstep
    cases hstep
    unfold sinkStart
    split
    · exact .inl rfl
    · split_ifs
      · split
        · exact .inr ⟨.drop .bin, rfl, .inr (.inr ⟨_, rfl⟩)⟩
        · exact .inl rfl
      · exact .inl rfl
  | sinkPayload payload =>
    simp only [step] at hstep
    split_ifs at hstep
    cases hstep
    exact .inl rfl
  | sinkEnd =>
    simp only [step] at hstep
    split_ifs at hstep
    cases hstep
    unfold sinkEnd
    split
    · exact .inl rfl
    · next i _ =>
      refine .inr ⟨.accept .bin i.item.bytes, accept_step ?_ ?_, .inr (.inl ⟨_, _, rfl⟩)⟩
      · rw [i.item.size]
        exact i.pos_pos.trans_le i.pos_le
      · rintro ⟨⟩
  | textVprintf own text room =>
    cases hstep
    unfold textVprintf
    split
    · split
      · exact .inl rfl
      · next text =>
        split
        · next hpos =>
          obtain ⟨hne, hlt⟩ := length_lineItem (o := o) hpos
          cases room with
          | true =>
            exact .inr ⟨_, accept_step hne fun _ => hlt, .inr (.inl ⟨_, _, rfl⟩)⟩
          | false => exact .inr ⟨.drop .text, rfl, .inr (.inr ⟨_, rfl⟩)⟩
        · exact .inl rfl
    · exact .inl rfl
  | wake isConnected =>
    obtain ⟨u, hu, rfl⟩ := Option.map_eq_some_iff.mp hstep
    exact .inr ⟨_, hu, .inl rfl⟩
  | begin now =>
    obtain ⟨u, hu, rfl⟩ := Option.map_eq_some_iff.mp hstep
    exact .inr ⟨_, hu, .inl rfl⟩
  | next now first second =>
    obtain ⟨u, hu, rfl⟩ := Option.map_eq_some_iff.mp hstep
    exact .inr ⟨_, hu, .inl rfl⟩

/-- **The rings and the upload task do not depend on where the entries come from**: in a run of the
uplink whose upload task meets a condition they make a run of `uploads o` that meets it. -/
theorem reachBy_uploader {g : UploadState o → UploadAct → Prop}
    (haccept : ∀ u kind item, g u (.accept kind item)) (hdrop : ∀ u kind, g u (.drop kind))
    (h : (uplink o).ReachBy (fun s a => ∀ b, a.task? = some b → g s.uploader b) s) :
    (uploads o).ReachBy g s.uploader := by
  refine h.map (f := uploader) rfl ?_
  intro s a s' _ _ hg hstep
  rcases uploader_step hstep with heq | ⟨b, hb, htask | ⟨kind, item, rfl⟩ | ⟨kind, rfl⟩⟩
  · exact .inl heq
  · exact .inr ⟨b, hg b htask, hb⟩
  · exact .inr ⟨_, haccept _ _ _, hb⟩
  · exact .inr ⟨_, hdrop _ _, hb⟩

theorem reach_uploader (h : (uplink o).Reach s) : (uploads o).Reach s.uploader :=
  reachBy_uploader (fun _ _ _ => trivial) (fun _ _ => trivial) (h.mono fun _ _ _ _ _ => trivial)

end LogUplink

end SoulCloud
