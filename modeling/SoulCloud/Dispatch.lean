import SoulCloud.Answers
import SoulCloud.Handle

/-!
# From the topic to the handler

A request's method travels as topic levels, through the slot's `char[48]`, to the first entry
of the method table with that name.

- `addMethod`, `addMethods`: the method table after any calls of `add_method`.
- `find_addMethods`: the table finds what was last added under a name.
- `ranHandler`: the handler that `handle` runs for a slot.
- `dispatch_iff`: it is the one of the request's own method exactly when the name fits the slot,
  or its first 47 bytes name the same handler.
-/

namespace SoulCloud

open Bytes

variable {σ : Type} {payloadMax resultMax : Nat}

/-! ## The method table -/

/-- The arguments of `sc_rpc::add_method`; `none` is a null pointer or an empty function. -/
structure Registration (σ : Type) where
  name : Option Bytes
  handler : Option (Handler σ)

/-- The loop of `add_method`: the first entry that is free or has the name. -/
def putMethod (name : Bytes) (handler : Handler σ) : MethodTable σ → EspErr × MethodTable σ
  | [] => (.noMem, [])
  | none :: rest => (.ok, some (name, handler) :: rest)
  | some (entryName, entryHandler) :: rest =>
    if entryName = name then (.ok, some (name, handler) :: rest)
    else
      let added := putMethod name handler rest
      (added.1, some (entryName, entryHandler) :: added.2)

/-- `sc_rpc::add_method`. -/
def addMethod (methods : MethodTable σ) (reg : Registration σ) : EspErr × MethodTable σ :=
  match reg.name, reg.handler with
  | some name, some handler => putMethod name handler methods
  | _, _ => (.invalidArg, methods)

/-- `MAX_METHODS`. -/
def maxMethods : Nat := 24

/-- The table after these calls, and what each of them returned. -/
def addMethods (regs : List (Registration σ)) : MethodTable σ × List (Registration σ × EspErr) :=
  regs.foldl
    (fun state reg =>
      let added := addMethod state.1 reg
      (added.2, state.2 ++ [(reg, added.1)]))
    (List.replicate maxMethods none, [])

/-- The handler of the last call that returned `ESP_OK` for this very name. -/
def lastAdded (log : List (Registration σ × EspErr)) (name : Bytes) : Option (Handler σ) :=
  log.foldl
    (fun found entry =>
      if entry.2 = .ok ∧ entry.1.name = some name then entry.1.handler else found)
    none

theorem find_putMethod (name : Bytes) (handler : Handler σ) (methods : MethodTable σ)
    (n : Bytes) :
    findMethod (putMethod name handler methods).2 n =
      if (putMethod name handler methods).1 = .ok ∧ name = n then some handler
      else findMethod methods n := by
  induction methods with
  | nil => rfl
  | cons entry rest ih =>
    cases entry with
    | none =>
      simp only [putMethod, findMethod, true_and]
    | some entry =>
      obtain ⟨entryName, entryHandler⟩ := entry
      simp only [putMethod, findMethod]
      by_cases hentry : entryName = name
      · rw [if_pos hentry]
        simp only [findMethod, true_and, hentry]
        by_cases hn : name = n
        · rw [if_pos hn, if_pos hn]
        · rw [if_neg hn, if_neg hn, if_neg hn]
      · rw [if_neg hentry]
        simp only [findMethod, ih]
        by_cases hn : entryName = n
        · have hne : ¬ name = n := fun h => hentry (hn.trans h.symm)
          rw [if_pos hn, if_pos hn, if_neg (fun h => hne h.2)]
        · rw [if_neg hn, if_neg hn]

theorem find_addMethod (methods : MethodTable σ) (reg : Registration σ) (n : Bytes) :
    findMethod (addMethod methods reg).2 n =
      if (addMethod methods reg).1 = .ok ∧ reg.name = some n then reg.handler
      else findMethod methods n := by
  rw [addMethod]
  split
  · rename_i name handler hname hhandler
    rw [find_putMethod, hname, hhandler]
    simp only [Option.some.injEq]
  · rw [if_neg]
    rintro ⟨hok, -⟩
    cases hok

theorem find_replicate (k : Nat) (n : Bytes) :
    findMethod (List.replicate k none : MethodTable σ) n = none := by
  induction k with
  | zero => rfl
  | succ k ih => exact ih

/-- **The table finds what was last added** under a name, for every sequence of calls. -/
theorem find_addMethods (regs : List (Registration σ)) (n : Bytes) :
    findMethod (addMethods regs).1 n = lastAdded (addMethods regs).2 n := by
  induction regs using List.reverseRecOn with
  | nil => exact find_replicate maxMethods n
  | append_singleton regs reg ih =>
    have hstep : addMethods (regs ++ [reg]) =
        ((addMethod (addMethods regs).1 reg).2,
          (addMethods regs).2 ++ [(reg, (addMethod (addMethods regs).1 reg).1)]) := by
      rw [addMethods]
      rw [List.foldl_append]
      rfl
    rw [hstep]
    rw [lastAdded]
    rw [find_addMethod, List.foldl_append, ih]
    rfl

/-! ## The handler that runs -/

/-- The handler that `handle` runs for a slot, if it gets that far. -/
def ranHandler (methods : MethodTable σ) (slot : Slot payloadMax) : Option (Handler σ) :=
  if slot.tooLarge then none
  else
    match findMethod methods slot.method.cstr with
    | none => none
    | some handler => if slot.params.1 ≠ .ok then none else some handler

/-- What `handle` does outside of `sc_rpc` is what that handler does. -/
theorem handle_state (errName : EspErr → Bytes) (methods : MethodTable σ)
    (slot : Slot payloadMax) (respBuf : Buf resultMax) (s : σ) :
    (handle errName methods slot respBuf s).2 =
      match ranHandler methods slot with
      | none => s
      | some handler => (runHandler handler slot s).2 := by
  have hstate : (handle errName methods slot respBuf s).2 =
      (handleError errName methods slot (.new respBuf) s).2.2 := by
    rw [handle]
    split <;> simp_all
  rw [hstate]
  rw [handleError, ranHandler]
  by_cases hlarge : slot.tooLarge = true
  · rw [if_pos hlarge, if_pos hlarge]
  · rw [if_neg hlarge, if_neg hlarge]
    cases findMethod methods slot.method.cstr with
    | none => rfl
    | some handler =>
      dsimp only
      by_cases hparse : slot.params.1 = .ok
      · rw [if_neg (not_not.mpr hparse), if_neg (not_not.mpr hparse)]
        rw [ranError]
        dsimp only
        split
        · rfl
        · split_ifs <;> rfl
      · rw [if_pos hparse, if_pos hparse]

/-! ## The method of a request -/

/-- The text that a request's payload stands for: an empty one means no parameters. -/
def Message.paramsJson (m : Message) : Bytes := if m.payload = [] then [123, 125] else m.payload

/-- The parameters of a request are a JSON object of at most 32 tokens. -/
def Message.Valid (m : Message) : Prop := ((JsonReader.new 32).parse m.paramsJson).1 = .ok

variable {cfg : Config}

/-- A slot that carries a request holds its parameters. -/
theorem Carries.paramsJson {m : Message} {slot : Slot cfg.payloadMax} (h : Carries cfg m slot)
    (hsize : m.payload.length ≤ cfg.payloadMax) : slot.paramsJson = m.paramsJson := by
  have hlen := h.payloadLen
  have htext := h.payload
  rw [if_pos hsize] at hlen htext
  rw [Slot.paramsJson, Message.paramsJson]
  rw [htext, hlen]
  by_cases hnil : m.payload = []
  · rw [if_pos hnil, if_neg (by rw [hnil]; exact Nat.lt_irrefl 0)]
  · rw [if_neg hnil, if_pos (List.length_pos_iff.mpr hnil)]

/-- A valid request that is not too large runs what the table has under the slot's name. -/
theorem Carries.ranHandler {m : Message} {slot : Slot cfg.payloadMax} (h : Carries cfg m slot)
    (hvalid : m.Valid) (hsize : m.payload.length ≤ cfg.payloadMax) (methods : MethodTable σ) :
    ranHandler methods slot =
      findMethod methods (((requestMethod cfg m.topic).take 47).map Slot.dotted) := by
  have hsmall : slot.tooLarge = false := by
    rw [h.tooLarge, decide_eq_false_iff_not]
    omega
  have hparse : slot.params.1 = .ok := by
    rw [Slot.params]
    rw [h.paramsJson hsize]
    exact hvalid
  rw [SoulCloud.ranHandler]
  rw [if_neg (ne_true_of_eq_false hsmall), h.method]
  cases findMethod methods (((requestMethod cfg m.topic).take 47).map Slot.dotted) with
  | none => rfl
  | some handler => exact if_neg (not_not.mpr hparse)

/-- The slot that is about to be handled carries the due message of its place. -/
theorem carries_of_handling {l : Link cfg} {h : RequestLog cfg} {idx : Nat} {m : Message}
    (hreach : (logged cfg).Reach (l, h)) (hpc : l.dev.taskPc = .handling idx)
    (hm : h.due[h.handled.length]? = some m) : Carries cfg m (l.dev.rpc.slots idx) := by
  have horder : HandledInOrder l h := handledInOrder_reach hreach
  have hslot : h.submitted[h.handled.length]? = some (l.dev.rpc.slots idx) := by
    rw [horder, List.getElem?_append_right (Nat.le_refl _), Nat.sub_self]
    rw [Link.waiting]
    rw [hpc]
    rfl
  obtain ⟨m', hm', hcarries⟩ := carries_of_submitted hreach hslot
  obtain rfl : m = m' := Option.some.inj (hm.symm.trans hm')
  exact hcarries

/-- **Dispatch.** In every reachable state, whatever methods were added, the request on
`d/<id>/down/req/<p>` that is about to be handled runs the handler last added as `p` with dots, or
none if there is none, if and only if `p` fits the slot or its first 47 bytes lead to the same
handler. -/
theorem dispatch_iff {l : Link cfg} {h : RequestLog cfg} {idx : Nat} {m : Message} {p : Bytes}
    (hreach : (logged cfg).Reach (l, h)) (hpc : l.dev.taskPc = .handling idx)
    (hm : h.due[h.handled.length]? = some m) (hp : m.topic = cfg.downTopic ++ (ascii "req/" ++ p))
    (hvalid : m.Valid) (hsize : m.payload.length ≤ cfg.payloadMax)
    (regs : List (Registration σ)) :
    ranHandler (addMethods regs).1 (l.dev.rpc.slots idx) =
        lastAdded (addMethods regs).2 (p.map Slot.dotted) ↔
      p.length ≤ 47 ∨
        lastAdded (addMethods regs).2 ((p.take 47).map Slot.dotted) =
          lastAdded (addMethods regs).2 (p.map Slot.dotted) := by
  have hcarries := carries_of_handling hreach hpc hm
  have hmethod : requestMethod cfg m.topic = p := by
    rw [hp, requestMethod_append]
    rfl
  rw [hcarries.ranHandler hvalid hsize, find_addMethods, hmethod]
  constructor
  · exact .inr
  · rintro (hlen | hsame)
    · rw [List.take_of_length_le hlen]
    · exact hsame

/-- A handler that does nothing, and a call that adds it. -/
def quietSample : Handler Unit := fun _ _ s => (⟨[], [], .ok⟩, s)

def addSample (name : Bytes) : Registration Unit := ⟨some name, some quietSample⟩

/-- The request of `ask` with another method. -/
def askFor (p : Bytes) (hnul : 0 ∉ Config.sample.downTopic ++ (ascii "req/" ++ p) := by decide) :
    Message where
  topic := Config.sample.downTopic ++ (ascii "req/" ++ p)
  property := ask.property
  payload := ask.payload
  topic_nul := hnul

/-- The sample device gets a request and takes it from the queue. -/
def arrival (m : Message) : List LinkAct :=
  [.connected true, .mqtt, .first m m.payload.length, .mqtt, .mqtt, .mqtt, .mqtt, .mqtt,
    .task .take]

/-- The request is about to be handled. -/
def Arrived (m : Message) (q : Link .sample × RequestLog .sample) : Prop :=
  q.1.dev.taskPc.unhandled = some 0 ∧
    (q.2.due[q.2.handled.length]?).map (fun m => (m.topic, m.payload)) = some (m.topic, m.payload)

instance (m : Message) (q : Link .sample × RequestLog .sample) : Decidable (Arrived m q) :=
  inferInstanceAs (Decidable (_ ∧ _))

/-- A request that has arrived is valid and not too large. -/
theorem exists_handling (p : Bytes)
    (hnul : 0 ∉ Config.sample.downTopic ++ (ascii "req/" ++ p))
    (hrun : ((logged .sample).run (arrival (askFor p hnul))).map
      (fun q => decide (Arrived (askFor p hnul) q)) = some true) :
    ∃ (l : Link .sample) (h : RequestLog .sample) (m : Message), (logged .sample).Reach (l, h) ∧
      l.dev.taskPc = .handling 0 ∧ h.due[h.handled.length]? = some m ∧
        m.topic = Config.sample.downTopic ++ (ascii "req/" ++ p) ∧ m.Valid ∧
          m.payload.length ≤ Config.sample.payloadMax := by
  obtain ⟨⟨l, h⟩, hreach, hcheck⟩ := Lts.exists_reach_of_run hrun
  obtain ⟨hun, hdue⟩ := of_decide_eq_true hcheck
  obtain ⟨m, hm, hsame⟩ := Option.map_eq_some_iff.mp hdue
  have hpayload : m.payload = ask.payload := congrArg Prod.snd hsame
  have hpc : l.dev.taskPc = .handling 0 := by
    dsimp only at hun
    cases hstate : l.dev.taskPc with
    | handling idx =>
      rw [hstate] at hun
      exact congrArg TaskPc.handling (Option.some.inj hun)
    | _ =>
      rw [hstate] at hun
      cases hun
  refine ⟨l, h, m, hreach, hpc, hm, congrArg Prod.fst hsame, ?_, ?_⟩
  · rw [Message.Valid, Message.paramsJson]
    rw [hpayload]
    decide +kernel
  · rw [hpayload]
    decide

/-- A short method is found. -/
theorem dispatch_sample :
    ∃ (l : Link .sample) (h : RequestLog .sample), (logged .sample).Reach (l, h) ∧
      ranHandler (addMethods [addSample (ascii "echo")]).1 (l.dev.rpc.slots 0) =
        lastAdded (addMethods [addSample (ascii "echo")]).2 ((ascii "echo").map Slot.dotted) := by
  obtain ⟨l, h, m, hreach, hpc, hm, htopic, hvalid, hsize⟩ :=
    exists_handling (ascii "echo") (by decide) (by decide +kernel)
  exact ⟨l, h, hreach, (dispatch_iff hreach hpc hm htopic hvalid hsize _).mpr (.inl (by decide))⟩

/-- A method of 48 bytes is registered, and no request reaches it. -/
theorem dispatch_misses :
    ¬ ∀ (l : Link .sample) (h : RequestLog .sample) (idx : Nat) (m : Message) (p : Bytes),
      (logged .sample).Reach (l, h) → l.dev.taskPc = .handling idx →
        h.due[h.handled.length]? = some m →
        m.topic = Config.sample.downTopic ++ (ascii "req/" ++ p) → m.Valid →
        m.payload.length ≤ Config.sample.payloadMax → ∀ regs : List (Registration Unit),
          ranHandler (addMethods regs).1 (l.dev.rpc.slots idx) =
            lastAdded (addMethods regs).2 (p.map Slot.dotted) := by
  intro hall
  obtain ⟨l, h, m, hreach, hpc, hm, htopic, hvalid, hsize⟩ :=
    exists_handling (List.replicate 48 97) (by decide) (by decide +kernel)
  have hran := hall l h 0 m _ hreach hpc hm htopic hvalid hsize
    [addSample (List.replicate 48 97)]
  have hmethod : requestMethod .sample m.topic = List.replicate 48 97 := by
    rw [htopic]
    exact requestMethod_append _ _
  rw [(carries_of_handling hreach hpc hm).ranHandler hvalid hsize, find_addMethods, hmethod] at hran
  have hisSome := congrArg Option.isSome hran
  revert hisSome
  decide

end SoulCloud
