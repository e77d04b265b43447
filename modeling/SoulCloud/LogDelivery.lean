import Mathlib.Data.Nat.ModEq
import Mathlib.Logic.Relation
import SoulCloud.LogUplink

/-!
# Logs arrive (`upload_bin`, `upload_text`)

For one log, the uplink is a queue whose entries leave in payloads, and a count of what it had no
room for.

- `LogView`, `LogView.Step`: what is seen of one log, and what can happen to it.
- `view_step`: a step of the logging tasks and the upload task is a series of these, as long as
  publishing succeeds.
- `Payload`, `Upload`, `Delivered`: the account of what has arrived.
- `accounted_of_reach`: **there is an account in every run**: every entry arrives whole, once and in
  order, and every count of drops is reported once.
-/

namespace SoulCloud

open Bytes

/-! ## What is seen of one log -/

namespace UploadCall

variable (kind : LogKind)

def item? : UploadCall → Option Bytes
  | .accepted k item => if k = kind then some item else none
  | _ => none

def count? : UploadCall → Option Nat
  | .taken k count => if k = kind then some count else none
  | _ => none

def isDrop : UploadCall → Bool
  | .dropped k => k = kind
  | _ => false

/-- The data of a message on the topic of the log. -/
def payload? (o : LogOptions) : UploadCall → Option Bytes
  | .publish _ _ _ _ (some p) =>
    if p.topic = o.cfg.upTopic ++ kind.subTopic then some p.data else none
  | _ => none

/-- A publish that does not succeed. -/
def Failed : UploadCall → Prop
  | .publish _ _ _ ret _ => ret ≠ .ok
  | _ => False

instance : DecidablePred Failed := fun c => match c with
  | .publish _ _ _ ret _ => inferInstanceAs (Decidable (ret ≠ .ok))
  | .accepted _ _ => inferInstanceAs (Decidable False)
  | .dropped _ => inferInstanceAs (Decidable False)
  | .taken _ _ => inferInstanceAs (Decidable False)

end UploadCall

/-- The count that the batch of a log carries, and what is in the batch, while it is filled. -/
def UploadPc.filling (kind : LogKind) (contents : Bytes) : UploadPc → Option (Nat × Bytes)
  | .drain k report => if k = kind then some (report, contents) else none
  | _ => none

/-- One log: what has gone into its ring buffer and what has reached esp-mqtt, the counts of what
there was no room for, and the batch while it is filled for this log. -/
structure LogView where
  accepted : List Bytes
  arrived : List Bytes
  /-- The counts that uploads have taken. -/
  taken : List Nat
  /-- How many entries have ever been dropped. -/
  drops : Nat
  ring : List Bytes
  dropped : Nat
  filling : Option (Nat × Bytes)

def UploadState.view {o : LogOptions} (s : UploadState o) (kind : LogKind) : LogView where
  accepted := s.calls.filterMap (·.item? kind)
  arrived := s.calls.filterMap (·.payload? kind o)
  taken := s.calls.filterMap (·.count? kind)
  drops := s.calls.countP (·.isDrop kind)
  ring := s.ring kind
  dropped := s.dropped kind
  filling := s.pc.filling kind s.contents

/-- What can happen to a log. -/
inductive LogView.Step (o : LogOptions) (kind : LogKind) : LogView → LogView → Prop
  | accept {v : LogView} {item : Bytes} :
      Step o kind v { v with accepted := v.accepted ++ [item], ring := v.ring ++ [item] }
  | drop {v : LogView} :
      Step o kind v { v with drops := v.drops + 1, dropped := (v.dropped + 1) % 2 ^ 32 }
  | begin {v : LogView} {now : BitVec 64} (hfill : v.filling = none) :
      Step o kind v { v with
        taken := v.taken ++ [v.dropped]
        dropped := 0
        filling :=
          some (v.dropped, if 0 < v.dropped then o.report kind v.dropped now else []) }
  /-- An item goes into the batch. -/
  | put {v : LogView} {report : Nat} {batch item : Bytes} {rest : List Bytes}
      (hfill : v.filling = some (report, batch)) (hring : v.ring = item :: rest)
      (hitem : item ≠ []) :
      Step o kind v { v with ring := rest, filling := some (report, batch ++ item) }
  /-- The batch is closed and published. -/
  | flush {v : LogView} {report : Nat} {batch : Bytes} {now : BitVec 64}
      (hfill : v.filling = some (report, batch))
      (hfits : (batch ++ o.closing kind now).length ≤ o.batchSize) :
      Step o kind v { v with
        arrived := v.arrived ++ [batch ++ o.closing kind now]
        filling := some (0, []) }
  /-- An item goes out on its own, with nothing in front of it. -/
  | alone {v : LogView} {item : Bytes} {rest : List Bytes} (hfill : v.filling = some (0, []))
      (hring : v.ring = item :: rest) (hkind : kind = .bin) (hbig : o.cap kind < item.length) :
      Step o kind v { v with arrived := v.arrived ++ [item], ring := rest }
  | finish {v : LogView} (hfill : v.filling = some (0, [])) :
      Step o kind v { v with filling := none }

abbrev LogView.Steps (o : LogOptions) (kind : LogKind) : LogView → LogView → Prop :=
  Relation.ReflTransGen (LogView.Step o kind)

/-! ## What the code does to one log -/

section Refinement

open UploadState

variable {o : LogOptions} {s s' t : UploadState o} {a : UploadAct} {kind k : LogKind}

theorem subTopic_length (kind : LogKind) : kind.subTopic.length ≤ 64 := by
  cases kind with
  | bin => decide
  | text => decide

theorem subTopic_inj (h : k.subTopic = kind.subTopic) : k = kind := by
  revert h
  cases k <;> cases kind <;> decide

/-- A successful publish puts its payload on the topic of its log. -/
theorem payload?_published {report qos : Nat} {data : Bytes} {m : MqttMoment}
    (hok : ¬ (o.published k report data qos m).Failed) :
    (o.published k report data qos m).payload? kind o = if k = kind then some data else none := by
  have hsent := publish_sent_of_ok (subTopic_length k) (not_not.mp hok)
  simp only [LogOptions.published, hsent, UploadCall.payload?]
  by_cases hk : k = kind
  · rw [if_pos hk, hk]
    exact if_pos rfl
  · rw [if_neg hk]
    exact if_neg fun htopic => hk (subTopic_inj (List.append_cancel_left htopic))

/-- What is seen of a log depends on the batch only while the batch is being filled for it. -/
theorem view_of_holding {d : Bytes} (h : Holding s d t) :
    t.view kind = { s.view kind with filling := s.pc.filling kind d } := by
  have hcontents := h.contents_eq
  obtain ⟨batch, rfl, -⟩ := h
  unfold view
  rw [hcontents]

/-- Nothing happens to one log while the task works on the other one. -/
theorem filling_of_ne (hk : k ≠ kind) (report : Nat) (d : Bytes) :
    (UploadPc.drain k report).filling kind d = none := if_neg hk

theorem filling_self (kind : LogKind) (report : Nat) (d : Bytes) :
    (UploadPc.drain kind report).filling kind d = some (report, d) := if_pos rfl

theorem filling_afterLog (d : Bytes) : (afterLog k).filling kind d = none := by
  cases k with
  | bin => rfl
  | text => rfl

/-- What happens to the other log is not seen. -/
theorem view_of_silent (calls : List UploadCall) (hcalls : s'.calls = s.calls ++ calls)
    (hsilent : ∀ c ∈ calls, c.item? kind = none ∧ c.payload? kind o = none ∧
      c.count? kind = none ∧ c.isDrop kind = false)
    (hring : s'.ring kind = s.ring kind) (hdropped : s'.dropped kind = s.dropped kind)
    (hfill : s'.pc.filling kind s'.contents = s.pc.filling kind s.contents) :
    s'.view kind = s.view kind := by
  have hitem : calls.filterMap (·.item? kind) = [] :=
    List.filterMap_eq_nil_iff.mpr fun c hc => (hsilent c hc).1
  have hpayload : calls.filterMap (·.payload? kind o) = [] :=
    List.filterMap_eq_nil_iff.mpr fun c hc => (hsilent c hc).2.1
  have hcount : calls.filterMap (·.count? kind) = [] :=
    List.filterMap_eq_nil_iff.mpr fun c hc => (hsilent c hc).2.2.1
  have hdrop : calls.countP (·.isDrop kind) = 0 :=
    List.countP_eq_zero.mpr fun c hc => by simp [(hsilent c hc).2.2.2]
  simp only [view, hcalls, List.filterMap_append, List.countP_append, hitem, hpayload, hcount,
    hdrop, hring, hdropped, hfill, List.append_nil, Nat.add_zero]

/-- A call that is about the other log. -/
theorem silent_of_ne {c : UploadCall} (hk : k ≠ kind)
    (hc : (∃ item, c = .accepted k item) ∨ c = .dropped k ∨ ∃ count, c = .taken k count) :
    c.item? kind = none ∧ c.payload? kind o = none ∧ c.count? kind = none ∧
      c.isDrop kind = false := by
  rcases hc with ⟨item, rfl⟩ | rfl | ⟨count, rfl⟩
  · exact ⟨if_neg hk, rfl, rfl, rfl⟩
  · exact ⟨rfl, rfl, rfl, decide_eq_false hk⟩
  · exact ⟨rfl, rfl, if_neg hk, rfl⟩

theorem view_accept (item : Bytes) :
    LogView.Steps o kind (s.view kind) ((s.accept k item).view kind) := by
  by_cases hk : k = kind
  · subst hk
    have hview : (s.accept k item).view k = { s.view k with
        accepted := (s.view k).accepted ++ [item], ring := (s.view k).ring ++ [item] } := by
      simp [view, accept, call, UploadCall.item?, UploadCall.payload?, UploadCall.count?,
        UploadCall.isDrop, contents]
    rw [hview]
    exact .single .accept
  · have hview : (s.accept k item).view kind = s.view kind :=
      view_of_silent [.accepted k item] rfl
        (List.forall_mem_singleton.mpr (silent_of_ne hk (.inl ⟨item, rfl⟩)))
        (Function.update_of_ne (Ne.symm hk) _ _) rfl rfl
    rw [hview]

theorem view_drop :
    LogView.Steps o kind (s.view kind) ((s.drop k).view kind) := by
  by_cases hk : k = kind
  · subst hk
    have hview : (s.drop k).view k = { s.view k with
        drops := (s.view k).drops + 1, dropped := ((s.view k).dropped + 1) % 2 ^ 32 } := by
      simp [view, UploadState.drop, call, UploadCall.item?, UploadCall.payload?, UploadCall.count?,
        UploadCall.isDrop, contents]
    rw [hview]
    exact .single .drop
  · have hview : (s.drop k).view kind = s.view kind :=
      view_of_silent [.dropped k] rfl
        (List.forall_mem_singleton.mpr (silent_of_ne hk (.inr (.inl rfl))))
        rfl (Function.update_of_ne (Ne.symm hk) _ _) rfl
    rw [hview]

theorem view_begin (hs : Filled s) (hpc : s.pc = .start k) (now : BitVec 64) :
    LogView.Steps o kind (s.view kind) ((s.uploadStart now k).view kind) := by
  have hfill : (s.view kind).filling = none := by
    simp only [view, hpc, UploadPc.filling]
  have hholding := uploadStart_holding (hs.dropped_lt k) now
  by_cases hk : k = kind
  · subst hk
    have hview : (s.uploadStart now k).view k = { s.view k with
        taken := (s.view k).taken ++ [(s.view k).dropped]
        dropped := 0
        filling := some ((s.view k).dropped,
          if 0 < (s.view k).dropped then o.report k (s.view k).dropped now else []) } := by
      rw [view_of_holding hholding, filling_self]
      simp [view, call, UploadCall.item?, UploadCall.payload?, UploadCall.count?,
        UploadCall.isDrop]
      rfl
    rw [hview]
    exact .single (.begin hfill)
  · have hview : (s.uploadStart now k).view kind = s.view kind := by
      obtain ⟨batch, heq, -⟩ := hholding
      rw [heq]
      refine view_of_silent [.taken k (s.dropped k)] rfl
        (List.forall_mem_singleton.mpr (silent_of_ne hk (.inr (.inr ⟨_, rfl⟩))))
        rfl (Function.update_of_ne (Ne.symm hk) _ _) ?_
      exact (filling_of_ne hk _ _).trans hfill.symm
    rw [hview]

/-- Publishes change nothing but what has arrived. -/
theorem view_published {calls : List UploadCall} (hcalls : s'.calls = s.calls ++ calls)
    (hpublished : ∀ c ∈ calls, ∃ report data qos m, c = o.published k report data qos m) :
    s'.view kind = { s.view kind with
      arrived := (s.view kind).arrived ++ calls.filterMap (·.payload? kind o)
      ring := s'.ring kind
      dropped := s'.dropped kind
      filling := s'.pc.filling kind s'.contents } := by
  have hitem : calls.filterMap (·.item? kind) = [] :=
    List.filterMap_eq_nil_iff.mpr fun c hc => by
      obtain ⟨_, _, _, _, rfl⟩ := hpublished c hc
      rfl
  have hcount : calls.filterMap (·.count? kind) = [] :=
    List.filterMap_eq_nil_iff.mpr fun c hc => by
      obtain ⟨_, _, _, _, rfl⟩ := hpublished c hc
      rfl
  have hdrop : calls.countP (·.isDrop kind) = 0 :=
    List.countP_eq_zero.mpr fun c hc => by
      obtain ⟨_, _, _, _, rfl⟩ := hpublished c hc
      exact Bool.false_ne_true
  simp only [view, hcalls, List.filterMap_append, List.countP_append, hitem, hcount, hdrop,
    List.append_nil, Nat.add_zero]

/-- One publish, or none. -/
theorem payload?_ite {p : Prop} [Decidable p] {report qos : Nat} {data : Bytes} {m : MqttMoment}
    (hok : ∀ c ∈ (if p then [o.published k report data qos m] else []), ¬ c.Failed) :
    (if p then [o.published k report data qos m] else []).filterMap (·.payload? kind o) =
      if p ∧ k = kind then [data] else [] := by
  by_cases hp : p
  · rw [if_pos hp] at hok ⊢
    rw [List.filterMap_cons, payload?_published (hok _ (List.mem_singleton_self _))]
    by_cases hk : k = kind
    · rw [if_pos hk, if_pos ⟨hp, hk⟩]
      rfl
    · rw [if_neg hk, if_neg fun h => hk h.2]
      rfl
  · rw [if_neg hp, if_neg fun h => hp h.1]
    rfl

theorem mem_ite_published {p : Prop} [Decidable p] {report qos : Nat} {data : Bytes}
    {m : MqttMoment} {c : UploadCall}
    (h : c ∈ if p then [o.published k report data qos m] else []) :
    ∃ report data qos m, c = o.published k report data qos m := by
  split at h
  · exact ⟨_, _, _, _, List.mem_singleton.mp h⟩
  · cases h

/-- The batch is closed and published, or it is not. -/
theorem view_flush {v : LogView} {report : Nat} {batch : Bytes} {p : Prop} [Decidable p]
    (hfill : v.filling = some (report, batch)) (hlen : batch.length ≤ o.cap kind)
    (now : BitVec 64) :
    LogView.Steps o kind v { v with
      arrived := v.arrived ++ if p then [batch ++ o.closing kind now] else []
      filling := some (if p then 0 else report, if p then [] else batch) } := by
  by_cases hp : p
  · simp only [if_pos hp]
    refine .single (.flush hfill ?_)
    rw [List.length_append]
    exact closing_fits hlen now
  · simp only [if_neg hp, List.append_nil]
    rw [← hfill]

theorem view_item (hs : Filled s) {report : Nat} {item : Bytes} {rest : List Bytes}
    (hpc : s.pc = .drain k report) (hring : s.ring k = item :: rest) (now : BitVec 64)
    (first second : MqttMoment)
    (hok : ∀ c ∈ (s.uploadItem report item rest now first second k).calls, ¬ c.Failed) :
    LogView.Steps o kind (s.view kind)
      ((s.uploadItem report item rest now first second k).view kind) := by
  have hmem : item ∈ s.ring k := hring ▸ List.mem_cons_self
  have hline := hs.line_of_ring hring
  have hlen := hs.len_le k report hpc
  have hcontents := length_contents (hlen.trans (o.cap_le k))
  have hholding := uploadItem_holding report rest hlen hline now first second
  have hcalls := hholding.calls_eq
  simp only [List.append_assoc] at hcalls
  rw [hcalls] at hok
  have hflushed := fun c hc => hok c (List.mem_append_right _ (List.mem_append_left _ hc))
  have hsent := fun c hc => hok c (List.mem_append_right _ (List.mem_append_right _ hc))
  rw [view_published hcalls fun c hc => (List.mem_append.mp hc).elim mem_ite_published
      mem_ite_published, hholding.ring_eq, hholding.dropped_eq, hholding.pc_eq,
    hholding.contents_eq, List.filterMap_append, payload?_ite hflushed, payload?_ite hsent]
  by_cases hk : k = kind
  · subst hk
    simp only [and_true, Function.update_self, filling_self]
    have hfill : (s.view k).filling = some (report, s.contents) := by
      simp only [view, hpc, filling_self]
    have hfirst := view_flush (p := s.Full k item) hfill (hcontents.trans_le hlen) now
    refine hfirst.tail ?_
    by_cases hbig : o.cap k < item.length
    · -- What goes out on its own comes behind whatever was in the batch.
      have hkind : k = .bin := by
        cases k with
        | bin => rfl
        | text => exact absurd ((hline rfl).trans o.lineMax_lt) (not_lt.mpr hbig.le)
      obtain ⟨hnone, hnil⟩ : (if s.Full k item then 0 else report) = 0 ∧
          (if s.Full k item then [] else s.contents) = [] := by
        by_cases hfull : s.Full k item
        · exact ⟨if_pos hfull, if_pos hfull⟩
        · have hzero : ¬ 0 < s.len := fun hpos => hfull ⟨Nat.lt_add_left _ hbig, hpos⟩
          have hreport : report = 0 := Nat.eq_zero_of_not_pos fun hpos =>
            hzero (hs.lead k report hpc hpos).1
          have hlenZero := hcontents.trans (Nat.eq_zero_of_not_pos hzero)
          exact ⟨(if_neg hfull).trans hreport,
            (if_neg hfull).trans (List.eq_nil_of_length_eq_zero hlenZero)⟩
      simp only [if_pos hbig, ← List.append_assoc, hnone, hnil]
      exact .alone rfl hring hkind hbig
    · simp only [if_neg hbig, List.append_nil]
      exact .put rfl hring (hs.item_ne k item hmem)
  · simp only [hk, and_false, if_false, List.append_nil, Function.update_of_ne (Ne.symm hk),
      filling_of_ne hk]
    have hfill : (s.view kind).filling = none := by
      simp only [view, hpc, filling_of_ne hk]
    rw [← hfill]
    exact .refl

theorem view_finish (hs : Filled s) {report : Nat} (hpc : s.pc = .drain k report)
    (now : BitVec 64) (m : MqttMoment)
    (hok : ∀ c ∈ (s.uploadEnd report now m k).calls, ¬ c.Failed) :
    LogView.Steps o kind (s.view kind)
      ((s.uploadEnd report now m k).view kind) := by
  have hlen := hs.len_le k report hpc
  have hcontents := length_contents (hlen.trans (o.cap_le k))
  have hholding := uploadEnd_holding report hlen now m
  have hcalls := hholding.calls_eq
  rw [hcalls] at hok
  have hflushed := fun c hc => hok c (List.mem_append_right _ hc)
  rw [view_published hcalls fun c hc => mem_ite_published hc, hholding.ring_eq,
    hholding.dropped_eq, hholding.pc_eq, hholding.contents_eq, payload?_ite hflushed,
    filling_afterLog]
  by_cases hk : k = kind
  · subst hk
    simp only [and_true]
    have hfill : (s.view k).filling = some (report, s.contents) := by
      simp only [view, hpc, filling_self]
    refine (view_flush (p := 0 < s.len) hfill (hcontents.trans_le hlen) now).tail ?_
    refine .finish ?_
    by_cases hpos : 0 < s.len
    · simp only [if_pos hpos]
    · -- A batch that carries a count is not empty.
      have hreport : report = 0 := Nat.eq_zero_of_not_pos fun hreport =>
        hpos (hs.lead k report hpc hreport).1
      have hnil := List.eq_nil_of_length_eq_zero (hcontents.trans (Nat.eq_zero_of_not_pos hpos))
      simp only [if_neg hpos, hreport, hnil]
  · have hfill : (s.view kind).filling = none := by
      simp only [view, hpc, filling_of_ne hk]
    simp only [hk, and_false, if_false, List.append_nil]
    rw [← hfill]
    exact .refl

/-- **What the code does to a log is a series of what can happen to one**, as long as publishing
succeeds. -/
theorem view_step (h : (uploads o).step s a = some s') (hs : Filled s)
    (hok : ∀ c ∈ s'.calls, ¬ c.Failed) :
    LogView.Steps o kind (s.view kind) (s'.view kind) := by
  cases step_cases h with
  | accept hitem hline => exact view_accept _
  | drop => exact view_drop
  | @wake isConnected hpc =>
    have hview : UploadState.view { s with pc := if isConnected then .start .bin else .idle } kind =
        s.view kind := by
      cases isConnected with
      | true => simp [view, hpc, UploadPc.filling]
      | false => simp [view, hpc, UploadPc.filling]
    rw [hview]
  | begin hpc => exact view_begin hs hpc _
  | item hpc hring => exact view_item hs hpc hring _ _ _ hok
  | finish hpc hring => exact view_finish hs hpc _ _ hok

end Refinement

/-! ## The account of what has arrived -/

/-- A payload: the report in front, the items, and what closes a batch. -/
structure Payload where
  report : Bytes
  items : List Bytes
  closing : Bytes

def Payload.bytes (p : Payload) : Bytes := p.report ++ p.items.flatten ++ p.closing

/-- One run of `upload_bin` or `upload_text`: the count it has taken, and what it has published. -/
structure Upload where
  taken : Nat
  payloads : List Payload

def Upload.items (u : Upload) : List Bytes := u.payloads.flatMap Payload.items

/-- How a count of drops is reported: not at all if it is 0. -/
def Reports (o : LogOptions) (kind : LogKind) (count : Nat) (b : Bytes) : Prop :=
  if 0 < count then ∃ now, b = o.report kind count now else b = []

/-- A payload is a batch that ends as a batch of its log has to, or a packet too big for one. -/
inductive Payload.Shaped (o : LogOptions) (kind : LogKind) : Payload → Prop
  | batch {p : Payload} {now : BitVec 64} (hclosing : p.closing = o.closing kind now)
      (hfits : p.bytes.length ≤ o.batchSize) : Shaped o kind p
  | alone {item : Bytes} (hkind : kind = .bin) (hbig : o.cap kind < item.length) :
      Shaped o kind ⟨[], [item], []⟩

/-- The count is reported in the first payload of an upload and nowhere else. -/
structure Upload.Shaped (o : LogOptions) (kind : LogKind) (u : Upload) : Prop where
  payloads : ∀ p ∈ u.payloads, p.Shaped o kind
  first : ∀ p ∈ u.payloads.head?, Reports o kind u.taken p.report
  rest : ∀ p ∈ u.payloads.tail, p.report = []

/-- The count has been reported, unless there was none. -/
def Upload.Reported (u : Upload) : Prop := 0 < u.taken → u.payloads ≠ []

/-- The uploads of a log account for everything that has arrived. What has been accepted is in
their payloads, in order, or in the batch (`pending`), or still in the ring buffer. -/
structure Delivered (o : LogOptions) (kind : LogKind) (v : LogView) (uploads : List Upload)
    (pending : List Bytes) : Prop where
  items : v.accepted = uploads.flatMap Upload.items ++ pending ++ v.ring
  payloads : v.arrived = (uploads.flatMap Upload.payloads).map Payload.bytes
  taken : v.taken = uploads.map Upload.taken
  counted : v.drops ≡ (uploads.map Upload.taken).sum + v.dropped [MOD 2 ^ 32]
  shaped : ∀ u ∈ uploads, u.Shaped o kind

/-- Where the last upload is. -/
inductive Stage (o : LogOptions) (kind : LogKind) :
    Option (Nat × Bytes) → List Upload → List Bytes → Prop
  | between {uploads : List Upload} (hreported : ∀ u ∈ uploads, u.Reported) :
      Stage o kind none uploads []
  /-- As long as the batch carries a count, nothing has been published. -/
  | filling {before : List Upload} {u : Upload} {pending : List Bytes} {lead : Bytes}
      {report : Nat} (hbefore : ∀ x ∈ before, x.Reported) (hlead : Reports o kind report lead)
      (hcarried : if 0 < report then u = ⟨report, []⟩ else u.Reported)
      (hpending : ∀ item ∈ pending, item ≠ []) :
      Stage o kind (some (report, lead ++ pending.flatten)) (before ++ [u]) pending

section Account

variable {o : LogOptions} {kind : LogKind} {v v' : LogView} {uploads before : List Upload}
  {u : Upload} {p : Payload} {pending : List Bytes}

def Upload.publish (u : Upload) (p : Payload) : Upload := { u with payloads := u.payloads ++ [p] }

theorem Upload.Shaped.publish (h : u.Shaped o kind) (hp : p.Shaped o kind)
    (hreport : if u.payloads = [] then Reports o kind u.taken p.report else p.report = []) :
    (u.publish p).Shaped o kind := by
  obtain ⟨taken, payloads⟩ := u
  cases payloads with
  | nil =>
    refine ⟨?_, ?_, nofun⟩
    · exact List.forall_mem_singleton.mpr hp
    · rintro x hx
      cases hx
      exact hreport
  | cons q qs =>
    refine ⟨?_, h.first, ?_⟩
    · exact List.forall_mem_append.mpr ⟨h.payloads, List.forall_mem_singleton.mpr hp⟩
    · exact List.forall_mem_append.mpr ⟨h.rest, List.forall_mem_singleton.mpr hreport⟩

theorem Upload.reported_publish : (u.publish p).Reported := fun _ => by simp [Upload.publish]

/-- The last upload publishes a payload. -/
theorem Delivered.publish {pending' rest : List Bytes} {data : Bytes}
    (h : Delivered o kind v (before ++ [u]) pending) (hp : p.Shaped o kind)
    (hreport : if u.payloads = [] then Reports o kind u.taken p.report else p.report = [])
    (hitems : pending ++ v.ring = p.items ++ pending' ++ rest) (hdata : data = p.bytes)
    {filling : Option (Nat × Bytes)} :
    Delivered o kind { v with arrived := v.arrived ++ [data], ring := rest, filling }
      (before ++ [u.publish p]) pending' where
  items := by
    have hall := h.items
    simp only [List.flatMap_append, List.flatMap_singleton, List.append_assoc, hitems] at hall
    simp only [hall, Upload.publish, Upload.items, List.flatMap_append, List.flatMap_singleton,
      List.append_assoc]
  payloads := by
    simp [h.payloads, Upload.publish, hdata]
  taken := by
    simp [h.taken, Upload.publish]
  counted := by
    have hcounted := h.counted
    simpa [Upload.publish] using hcounted
  shaped := by
    obtain ⟨hbefore, hlast⟩ := List.forall_mem_append.mp h.shaped
    refine List.forall_mem_append.mpr ⟨hbefore, List.forall_mem_singleton.mpr ?_⟩
    exact (List.forall_mem_singleton.mp hlast).publish hp hreport

/-- What the next payload begins with is right. -/
theorem reports_next {lead : Bytes} {report : Nat} (hlead : Reports o kind report lead)
    (hcarried : if 0 < report then u = ⟨report, []⟩ else u.Reported) :
    if u.payloads = [] then Reports o kind u.taken lead else lead = [] := by
  by_cases hpos : 0 < report
  · rw [if_pos hpos] at hcarried
    subst hcarried
    exact (if_pos rfl).mpr hlead
  · rw [if_neg hpos] at hcarried
    rw [Reports, if_neg hpos] at hlead
    split
    · next hnone =>
      have hzero : ¬ 0 < u.taken := fun htaken => hcarried htaken hnone
      rwa [Reports, if_neg hzero]
    · exact hlead

/-- An empty batch that carries no count. -/
theorem Stage.of_empty (h : Stage o kind (some (0, [])) uploads pending) :
    pending = [] ∧ (∀ x ∈ uploads, x.Reported) ∧ ∃ before u, uploads = before ++ [u] := by
  generalize hfill : some ((0 : Nat), ([] : Bytes)) = filling at h
  cases h with
  | between => cases hfill
  | @filling before u _ lead report hbefore hlead hcarried hpending =>
    obtain ⟨hreport, hnil⟩ := Prod.mk.inj (Option.some.inj hfill)
    subst hreport
    have hflat := (List.append_eq_nil_iff.mp hnil.symm).2
    refine ⟨?_, ?_, before, u, rfl⟩
    · refine List.eq_nil_iff_forall_not_mem.mpr fun item hitem => ?_
      exact hpending item hitem (List.flatten_eq_nil_iff.mp hflat item hitem)
    · exact List.forall_mem_append.mpr ⟨hbefore, List.forall_mem_singleton.mpr hcarried⟩

/-- After a payload has been published the batch is empty. -/
theorem Stage.published (hbefore : ∀ x ∈ before, x.Reported) :
    Stage o kind (some (0, [])) (before ++ [u.publish p]) [] := by
  have hnone : Reports o kind 0 [] := rfl
  exact .filling hbefore hnone Upload.reported_publish (List.forall_mem_nil _)

/-- There is an account of a log. -/
def Accounted (o : LogOptions) (kind : LogKind) (v : LogView) : Prop :=
  ∃ uploads pending, Delivered o kind v uploads pending ∧ Stage o kind v.filling uploads pending

theorem Accounted.begin (h : Accounted o kind v) (now : BitVec 64) (hfill : v.filling = none) :
    Accounted o kind { v with
      taken := v.taken ++ [v.dropped]
      dropped := 0
      filling := some (v.dropped, if 0 < v.dropped then o.report kind v.dropped now else []) } := by
  obtain ⟨uploads, pending, hd, hstage⟩ := h
  rw [hfill] at hstage
  cases hstage with
  | between hreported =>
    refine ⟨uploads ++ [⟨v.dropped, []⟩], [], ?_, ?_⟩
    · exact {
        items := by simpa [Upload.items] using hd.items
        payloads := by simpa using hd.payloads
        taken := by simp [hd.taken]
        counted := by simpa using hd.counted
        shaped := List.forall_mem_append.mpr ⟨hd.shaped, List.forall_mem_singleton.mpr
          ⟨nofun, nofun, nofun⟩⟩ }
    · have hlead : Reports o kind v.dropped
          (if 0 < v.dropped then o.report kind v.dropped now else []) := by
        unfold Reports
        split
        · exact ⟨now, rfl⟩
        · rfl
      have hcarried : if 0 < v.dropped then (⟨v.dropped, []⟩ : Upload) = ⟨v.dropped, []⟩
          else Upload.Reported ⟨v.dropped, []⟩ := by
        split
        · rfl
        · next hzero => exact fun hpos => absurd hpos hzero
      have hstage := Stage.filling hreported hlead hcarried (List.forall_mem_nil _)
      rwa [List.flatten_nil, List.append_nil] at hstage

theorem Accounted.put (h : Accounted o kind v) {report : Nat} {batch item : Bytes}
    {rest : List Bytes} (hfill : v.filling = some (report, batch)) (hring : v.ring = item :: rest)
    (hitem : item ≠ []) :
    Accounted o kind { v with ring := rest, filling := some (report, batch ++ item) } := by
  obtain ⟨uploads, pending, hd, hstage⟩ := h
  rw [hfill] at hstage
  cases hstage with
  | @filling before u _ lead _ hbefore hlead hcarried hpending =>
    refine ⟨before ++ [u], pending ++ [item],
      ⟨?_, hd.payloads, hd.taken, hd.counted, hd.shaped⟩, ?_⟩
    · rw [hd.items, hring]
      simp
    · have hstage := Stage.filling hbefore hlead hcarried
        (List.forall_mem_append.mpr ⟨hpending, List.forall_mem_singleton.mpr hitem⟩)
      simpa using hstage

theorem Accounted.flush (h : Accounted o kind v) {report : Nat} {batch : Bytes} {now : BitVec 64}
    (hfill : v.filling = some (report, batch))
    (hfits : (batch ++ o.closing kind now).length ≤ o.batchSize) :
    Accounted o kind { v with
      arrived := v.arrived ++ [batch ++ o.closing kind now]
      filling := some (0, []) } := by
  obtain ⟨uploads, pending, hd, hstage⟩ := h
  rw [hfill] at hstage
  cases hstage with
  | @filling before u _ lead _ hbefore hlead hcarried hpending =>
    have hp : Payload.Shaped o kind ⟨lead, pending, o.closing kind now⟩ := .batch rfl hfits
    exact ⟨before ++ [u.publish ⟨lead, pending, o.closing kind now⟩], [],
      hd.publish hp (reports_next hlead hcarried) (by simp) rfl,
      .published hbefore⟩

theorem Accounted.alone (h : Accounted o kind v) {item : Bytes} {rest : List Bytes}
    (hfill : v.filling = some (0, [])) (hring : v.ring = item :: rest) (hkind : kind = .bin)
    (hbig : o.cap kind < item.length) :
    Accounted o kind { v with arrived := v.arrived ++ [item], ring := rest } := by
  obtain ⟨uploads, pending, hd, hstage⟩ := h
  rw [hfill] at hstage
  obtain ⟨rfl, hreported, before, u, rfl⟩ := hstage.of_empty
  obtain ⟨hbefore, hu⟩ := List.forall_mem_append.mp hreported
  have hp : Payload.Shaped o kind ⟨[], [item], []⟩ := .alone hkind hbig
  have hnone : Reports o kind 0 [] := rfl
  have hnext := reports_next hnone ((if_neg (lt_irrefl 0)).mpr (List.forall_mem_singleton.mp hu))
  refine ⟨before ++ [u.publish ⟨[], [item], []⟩], [],
    hd.publish hp hnext (by simp [hring]) (by simp [Payload.bytes]), ?_⟩
  · rw [hfill]
    exact .published hbefore

theorem Accounted.finish (h : Accounted o kind v) (hfill : v.filling = some (0, [])) :
    Accounted o kind { v with filling := none } := by
  obtain ⟨uploads, pending, hd, hstage⟩ := h
  rw [hfill] at hstage
  obtain ⟨rfl, hreported, -⟩ := hstage.of_empty
  exact ⟨uploads, [], ⟨hd.items, hd.payloads, hd.taken, hd.counted, hd.shaped⟩, .between hreported⟩

theorem Accounted.step (h : Accounted o kind v) (hstep : LogView.Step o kind v v') :
    Accounted o kind v' := by
  cases hstep with
  | @accept item =>
    obtain ⟨uploads, pending, hd, hstage⟩ := h
    refine ⟨uploads, pending, ⟨?_, hd.payloads, hd.taken, hd.counted, hd.shaped⟩, hstage⟩
    rw [hd.items, List.append_assoc]
  | drop =>
    obtain ⟨uploads, pending, hd, hstage⟩ := h
    refine ⟨uploads, pending, ⟨hd.items, hd.payloads, hd.taken, ?_, hd.shaped⟩, hstage⟩
    show v.drops + 1 ≡ _ + (v.dropped + 1) % 2 ^ 32 [MOD 2 ^ 32]
    calc v.drops + 1 ≡ (uploads.map Upload.taken).sum + v.dropped + 1 [MOD 2 ^ 32] :=
          hd.counted.add_right 1
      _ = (uploads.map Upload.taken).sum + (v.dropped + 1) := Nat.add_assoc _ _ _
      _ ≡ (uploads.map Upload.taken).sum + (v.dropped + 1) % 2 ^ 32 [MOD 2 ^ 32] :=
          (Nat.mod_modEq _ _).symm.add_left _
  | begin hfill => exact h.begin _ hfill
  | put hfill hring hitem => exact h.put hfill hring hitem
  | flush hfill hfits => exact h.flush hfill hfits
  | alone hfill hring hkind hbig => exact h.alone hfill hring hkind hbig
  | finish hfill => exact h.finish hfill

theorem Accounted.steps (h : Accounted o kind v)
    (hsteps : LogView.Steps o kind v v') : Accounted o kind v' := by
  induction hsteps with
  | refl => exact h
  | tail _ hstep ih => exact ih.step hstep

end Account

/-! ## The whole uplink -/

section Run

variable {o : LogOptions} {s s' : UploadState o} {a : UploadAct} {kind : LogKind}

theorem accounted_of_reach (kind : LogKind) (h : (uploads o).Reach s)
    (hok : ∀ c ∈ s.calls, ¬ c.Failed) : Accounted o kind (s.view kind) := by
  induction h with
  | init =>
    exact ⟨[], [], ⟨rfl, rfl, rfl, rfl, List.forall_mem_nil _⟩, .between (List.forall_mem_nil _)⟩
  | step hs _ hstep ih =>
    have hfilled := UploadState.filled_of_reach hs
    obtain ⟨calls, hcalls, -⟩ := UploadState.step_calls hstep hfilled
    have hbefore := fun c hc => hok c (hcalls ▸ List.mem_append_left calls hc)
    exact (ih hbefore).steps (view_step hstep hfilled hok)

end Run

/-- Between two uploads nothing is left in the batch, and no count is left unreported. -/
theorem Accounted.between {o : LogOptions} {kind : LogKind} {v : LogView}
    (h : Accounted o kind v) :
    ∃ uploads pending, Delivered o kind v uploads pending ∧
      (v.filling = none → pending = [] ∧ ∀ u ∈ uploads, u.Reported) := by
  obtain ⟨uploads, pending, hd, hstage⟩ := h
  refine ⟨uploads, pending, hd, fun hnone => ?_⟩
  rw [hnone] at hstage
  cases hstage with
  | between hreported => exact ⟨rfl, hreported⟩

end SoulCloud
