import SoulCloud.CancelRequest
import SoulCloud.Reboot
import SoulCloud.Server
import SoulCloud.ShellAnswer
import SoulCloud.ShellTable

/-!
# The methods of the device (`register_builtin_methods`)

The built-in methods of `sc_client` and those of the application are served from one table, on
one state.

- `DeviceState`, `builtinMethods`: what the handlers work on, and their registrations.
- `deviceService`: the service behind the table.
- `Handler.FailsClean`: a handler that changes nothing unless it succeeds.
- `lasting`: the requests that are not refused.
- `refusals_leave_nothing`: **what is refused might as well not have been asked for**.
-/

namespace SoulCloud

open Bytes Json

/-! ## The handlers -/

/-- What the handler of `info` finds. -/
structure DeviceFacts where
  project : Bytes
  version : Bytes
  sdk : Bytes
  date : Bytes
  time : Bytes
  elfSha256 : Bytes
  /-- `CONFIG_IDF_TARGET`. -/
  chip : Bytes
  /-- The label of the running partition. -/
  partition : Bytes
  uptimeMs : Nat
  bootId : Nat
  resetReason : Int
  heapFree : Nat
  heapMinFree : Nat
  heapLargestBlock : Nat
  psramFree : Nat

/-- What the handlers read and change. -/
structure DeviceState (size : Nat) (τ : Type) where
  builtin : BuiltinState
  /-- `restart_timer`. -/
  timer : RestartTimer
  /-- `shell_out`. -/
  shellOut : Buf size
  /-- A task for an update can be created. -/
  taskRoom : Bool
  facts : DeviceFacts
  /-- What the application's handlers and commands share. -/
  app : τ

variable {σ τ : Type} {size : Nat}

/-- A handler that works on the levels, the switches and the updater. -/
def onBuiltin (handler : Handler BuiltinState) : Handler (DeviceState size τ) :=
  fun method params s =>
    let ran := handler method params s.builtin
    (ran.1, { s with builtin := ran.2 })

/-- A handler that works on the restart timer. -/
def onTimer (handler : Handler RestartTimer) : Handler (DeviceState size τ) :=
  fun method params s =>
    let ran := handler method params s.timer
    (ran.1, { s with timer := ran.2 })

/-- The handler of `shell`, which leaves the output of its command in `shell_out`. -/
def shell (cmds : ShellTable (DeviceState size τ)) : Handler (DeviceState size τ) :=
  fun method params s =>
    let ran := shellMethod cmds s.shellOut method params s
    match params.getCStr (some 0) (ascii "line") 520 with
    | none => ran
    | some line =>
      let out := (ShellOut.new s.shellOut).run (runLine cmds line s).1.calls
      (ran.1, { ran.2 with shellOut := out.buf })

/-- The handler of `info`. -/
def info : Handler (DeviceState size τ) := fun _ _ s =>
  let f := s.facts
  (⟨[.addStr (some (ascii "project")) f.project, .addStr (some (ascii "version")) f.version,
    .addStr (some (ascii "sdk")) f.sdk,
    .addFmt (some (ascii "buildTime")) (some (f.date ++ [32] ++ f.time)),
    .addHex (some (ascii "elfSha256")) f.elfSha256, .addStr (some (ascii "chip")) f.chip,
    .addStr (some (ascii "partition")) f.partition,
    .addUint (some (ascii "uptimeMs")) f.uptimeMs, .addUint (some (ascii "bootId")) f.bootId,
    .addInt (some (ascii "resetReason")) f.resetReason, .beginObject (some (ascii "heap")),
    .addUint (some (ascii "free")) f.heapFree, .addUint (some (ascii "minFree")) f.heapMinFree,
    .addUint (some (ascii "largestBlock")) f.heapLargestBlock,
    .addUint (some (ascii "psramFree")) f.psramFree, .endObject], [], .ok⟩, s)

/-- The calls of `register_builtin_methods`. -/
def builtinMethods (cmds : ShellTable (DeviceState size τ)) :
    List (Registration (DeviceState size τ)) :=
  [⟨some (ascii "shell"), some (shell cmds)⟩, ⟨some (ascii "reboot"), some (onTimer reboot)⟩,
    ⟨some (ascii "info"), some info⟩, ⟨some (ascii "log.config"), some (onBuiltin logConfig)⟩,
    ⟨some (ascii "ota.start"),
      some fun method params s => onBuiltin (otaStart s.taskRoom) method params s⟩,
    ⟨some (ascii "ota.cancel"), some (onBuiltin otaCancel)⟩]

/-! ## Handlers that change nothing unless they succeed -/

/-- The run is answered with an error, whatever it has written. -/
def HandlerRun.Fails (run : HandlerRun) : Prop := run.fails ≠ [] ∨ run.ret ≠ .ok

/-- A handler that fails leaves its state as it was. -/
def FailsClean (handler : Handler σ) : Prop :=
  ∀ method params s, (handler method params s).1.Fails → (handler method params s).2 = s

theorem Explained.ret_ne {run : HandlerRun} (h : Explained run) (hfails : run.Fails) :
    run.ret ≠ .ok := by
  cases h with
  | done => exact hfails.elim (fun hne => absurd rfl hne) id
  | refused hret => exact hret

theorem failsClean_logConfig : FailsClean logConfig := by
  intro method params s hfails
  rcases logConfig_cases method params s with ⟨entries, -, hrun, -⟩ | hrun
  · rw [hrun] at hfails
    exact absurd rfl (Explained.ret_ne .done hfails)
  · rw [hrun]

theorem failsClean_otaStart (created : Bool) : FailsClean (otaStart created) := by
  intro method params s hfails
  have hret := (otaStart_explained created method params s).ret_ne hfails
  unfold otaStart at hret ⊢
  cases hdecode : params.decodeOtaParams (some 0) with
  | none => rfl
  | some p =>
    rw [hdecode] at hret
    dsimp only at hret ⊢
    split_ifs at hret ⊢ with hstart
    · -- Only a running update is refused, and then `start` does nothing.
      have hrunning : s.ota.running = true := by
        by_contra hidle
        rw [Ota.startRet, if_neg hidle] at hstart
        split_ifs at hstart
      have hsame : s.ota.start p created = s.ota := if_pos hrunning
      rw [hsame]
    · exact absurd rfl hret

theorem failsClean_otaCancel : FailsClean otaCancel := fun method params s hfails =>
  otaCancel_state ((otaCancel_explained method params s).ret_ne hfails)

theorem failsClean_reboot : FailsClean reboot := by
  intro method params timer hfails
  cases timer with
  | none => exact hfails.elim (fun hne => absurd rfl hne) fun hret => absurd rfl hret
  | some us => rfl

theorem FailsClean.onBuiltin {handler : Handler BuiltinState} (h : FailsClean handler) :
    FailsClean (onBuiltin handler : Handler (DeviceState size τ)) := by
  intro method params s hfails
  show { s with builtin := (handler method params s.builtin).2 } = s
  rw [h method params s.builtin hfails]

theorem FailsClean.onTimer {handler : Handler RestartTimer} (h : FailsClean handler) :
    FailsClean (onTimer handler : Handler (DeviceState size τ)) := by
  intro method params s hfails
  show { s with timer := (handler method params s.timer).2 } = s
  rw [h method params s.timer hfails]

theorem failsClean_shell (cmds : ShellTable (DeviceState size τ)) : FailsClean (shell cmds) := by
  intro method params s hfails
  unfold shell shellMethod at hfails ⊢
  cases hline : params.getCStr (some 0) (ascii "line") 520 with
  | none => rfl
  | some line =>
    rw [hline] at hfails
    exact hfails.elim (fun hne => absurd rfl hne) fun hret => absurd rfl hret

/-- All of them are such handlers. -/
theorem failsClean_builtin (cmds : ShellTable (DeviceState size τ)) :
    ∀ reg ∈ builtinMethods cmds, ∀ handler, reg.handler = some handler → FailsClean handler := by
  have hinfo : FailsClean (info : Handler (DeviceState size τ)) := fun _ _ _ _ => rfl
  intro reg hreg handler hhandler
  simp only [builtinMethods, List.mem_cons, List.not_mem_nil, or_false] at hreg
  rcases hreg with rfl | rfl | rfl | rfl | rfl | rfl <;> obtain rfl := Option.some.inj hhandler
  · exact failsClean_shell cmds
  · exact failsClean_reboot.onTimer
  · exact hinfo
  · exact failsClean_logConfig.onBuiltin
  · exact fun method params s => (failsClean_otaStart s.taskRoom).onBuiltin method params s
  · exact failsClean_otaCancel.onBuiltin

/-! ## Handlers that write keyed members -/

/-- The handler writes keyed members, with every container closed. -/
def WritesMembers (handler : Handler σ) : Prop :=
  ∀ method params s, ∃ result : WrittenMembers, (handler method params s).1.result = result.calls

theorem Explained.writesMembers {handler : Handler σ}
    (h : ∀ method params s, Explained (handler method params s).1) : WritesMembers handler :=
  fun method params s => ((h method params s).answerable fun _ => []).balanced

/-- The result of `info` as a tree. -/
def infoResult (f : DeviceFacts) : WrittenMembers :=
  .cons (ascii "project") (.leaf (.str (some f.project)))
    (.cons (ascii "version") (.leaf (.str (some f.version)))
    (.cons (ascii "sdk") (.leaf (.str (some f.sdk)))
    (.cons (ascii "buildTime") (.leaf (.fmt (f.date ++ [32] ++ f.time)))
    (.cons (ascii "elfSha256") (.leaf (.hex f.elfSha256))
    (.cons (ascii "chip") (.leaf (.str (some f.chip)))
    (.cons (ascii "partition") (.leaf (.str (some f.partition)))
    (.cons (ascii "uptimeMs") (.leaf (.uint f.uptimeMs))
    (.cons (ascii "bootId") (.leaf (.uint f.bootId))
    (.cons (ascii "resetReason") (.leaf (.int f.resetReason))
    (.cons (ascii "heap") (.object
      (.cons (ascii "free") (.leaf (.uint f.heapFree))
      (.cons (ascii "minFree") (.leaf (.uint f.heapMinFree))
      (.cons (ascii "largestBlock") (.leaf (.uint f.heapLargestBlock))
      (.cons (ascii "psramFree") (.leaf (.uint f.psramFree)) .nil))))) .nil))))))))))

theorem writesMembers_shell (hsize : 0 < size) (cmds : ShellTable (DeviceState size τ)) :
    WritesMembers (shell cmds) := by
  intro method params s
  cases hline : params.getCStr (some 0) (ascii "line") 520 with
  | none =>
    refine ⟨.nil, ?_⟩
    unfold shell shellMethod
    rw [hline]
    rfl
  | some line =>
    have hrun := shellMethod_line hsize cmds s.shellOut method s hline
    refine ⟨shellResult (runLine cmds line s).1.code
      ((runLine cmds line s).1.output.take (size - 1))
      (decide (size - 1 < (runLine cmds line s).1.output.length)), ?_⟩
    unfold shell
    rw [hline]
    exact congrArg HandlerRun.result hrun

theorem writesMembers_builtin (hsize : 0 < size) (cmds : ShellTable (DeviceState size τ)) :
    ∀ reg ∈ builtinMethods cmds, ∀ handler, reg.handler = some handler →
      WritesMembers handler := by
  intro reg hreg handler hhandler
  simp only [builtinMethods, List.mem_cons, List.not_mem_nil, or_false] at hreg
  rcases hreg with rfl | rfl | rfl | rfl | rfl | rfl <;> obtain rfl := Option.some.inj hhandler
  · exact writesMembers_shell hsize cmds
  · exact fun _ _ _ => ⟨.nil, rfl⟩
  · exact fun _ _ s => ⟨infoResult s.facts, rfl⟩
  · exact Explained.writesMembers fun method params s => logConfig_explained method params s.builtin
  · exact Explained.writesMembers fun method params s =>
      otaStart_explained s.taskRoom method params s.builtin
  · exact Explained.writesMembers fun method params s => otaCancel_explained method params s.builtin

/-! ## The table -/

theorem mem_putMethod {name n : Bytes} {handler h : Handler σ} {methods : MethodTable σ}
    (hmem : some (n, h) ∈ (putMethod name handler methods).2) :
    (n = name ∧ h = handler) ∨ some (n, h) ∈ methods := by
  induction methods with
  | nil => cases hmem
  | cons entry rest ih =>
    cases entry with
    | none =>
      rcases List.mem_cons.mp hmem with heq | hrest
      · cases heq
        exact .inl ⟨rfl, rfl⟩
      · exact .inr (List.mem_cons_of_mem _ hrest)
    | some entry =>
      obtain ⟨entryName, entryHandler⟩ := entry
      simp only [putMethod] at hmem
      split_ifs at hmem with hname
      · rcases List.mem_cons.mp hmem with heq | hrest
        · cases heq
          exact .inl ⟨rfl, rfl⟩
        · exact .inr (List.mem_cons_of_mem _ hrest)
      · rcases List.mem_cons.mp hmem with heq | hrest
        · exact .inr (heq ▸ List.mem_cons_self)
        · exact (ih hrest).imp id (List.mem_cons_of_mem _)

/-- What the table holds was registered. -/
theorem mem_addMethods {regs : List (Registration σ)} {name : Bytes} {handler : Handler σ}
    (h : some (name, handler) ∈ (addMethods regs).1) :
    ∃ reg ∈ regs, reg.name = some name ∧ reg.handler = some handler := by
  induction regs using List.reverseRecOn with
  | nil => cases List.eq_of_mem_replicate h
  | append_singleton regs reg ih =>
    have hlast : (addMethods (regs ++ [reg])).1 = (addMethod (addMethods regs).1 reg).2 := by
      rw [addMethods, List.foldl_append]
      rfl
    have hold : some (name, handler) ∈ (addMethods regs).1 →
        ∃ reg' ∈ regs ++ [reg], reg'.name = some name ∧ reg'.handler = some handler := by
      intro hmem
      obtain ⟨reg', hreg', hsame⟩ := ih hmem
      exact ⟨reg', List.mem_append_left _ hreg', hsame⟩
    rw [hlast, addMethod] at h
    split at h
    · next name' handler' hname hhandler =>
      rcases mem_putMethod h with ⟨rfl, rfl⟩ | hmem
      · exact ⟨reg, List.mem_append_right _ (List.mem_singleton_self reg), hname, hhandler⟩
      · exact hold hmem
    · exact hold h

/-- What the application registers besides. -/
structure Extensions (size : Nat) (τ : Type) where
  cmds : ShellTable (DeviceState size τ)
  methods : List (Registration (DeviceState size τ))

/-- What holds for the handlers that the application registers. -/
def Extensions.All (ext : Extensions size τ) (P : Handler (DeviceState size τ) → Prop) : Prop :=
  ∀ reg ∈ ext.methods, ∀ handler, reg.handler = some handler → P handler

/-- The service of a device with a response buffer of `resultMax` bytes. `SHELL_OUT_SIZE` is half
of that. -/
def deviceService (resultMax : Nat) (hmax : 256 ≤ resultMax) (errName : EspErr → Bytes)
    (hname : ∀ e, e ≠ .ok → errName e ≠ []) (ext : Extensions (resultMax / 2) τ) :
    Service (DeviceState (resultMax / 2) τ) where
  resultMax := resultMax
  resultMax_ge := hmax
  errName := errName
  errName_ne := hname
  methods := (addMethods (builtinMethods ext.cmds ++ ext.methods)).1

/-- What holds for the built-in methods and for the application's holds for the table. -/
theorem forall_mem_methods {cmds : ShellTable (DeviceState size τ)} {ext : Extensions size τ}
    {P : Handler (DeviceState size τ) → Prop}
    (hbuiltin : ∀ reg ∈ builtinMethods cmds, ∀ handler, reg.handler = some handler → P handler)
    (hext : ext.All P) {name : Bytes} {handler : Handler (DeviceState size τ)}
    (h : some (name, handler) ∈ (addMethods (builtinMethods cmds ++ ext.methods)).1) :
    P handler := by
  obtain ⟨reg, hreg, -, hhandler⟩ := mem_addMethods h
  rcases List.mem_append.mp hreg with hreg | hreg
  · exact hbuiltin reg hreg handler hhandler
  · exact hext reg hreg handler hhandler

/-! ## Refused requests -/

namespace Service

variable {cfg : Config} (svc : Service σ)

/-- The text of an answer whose result was too large. -/
def tooLarge : Bytes :=
  snprintf 112 (ascii "result larger than " ++ decimal svc.resultMax ++ ascii " bytes")

/-- The request is answered with an error, and not because a handler that has succeeded has written
more than the response buffer holds. -/
def refuses (cfg : Config) (m : Message) (s : σ) : Bool :=
  match (svc.answer cfg m s).1 with
  | .ok _ => false
  | .error text => decide (text ≠ svc.tooLarge)

/-- The requests that are not refused when they are served one after the other. -/
def lasting (cfg : Config) : List Message → σ → List Message
  | [], _ => []
  | m :: rest, s =>
    let later := lasting cfg rest (svc.answer cfg m s).2
    if svc.refuses cfg m s then later else m :: later

/-- A run that is answered with another error fails. -/
theorem fails_of_ranAnswer {run : HandlerRun} {text : Bytes} (h : svc.ranAnswer run = .error text)
    (htext : text ≠ svc.tooLarge) : run.Fails := by
  rw [ranAnswer] at h
  cases herror : callError run.fails with
  | some msg =>
    left
    rintro hnone
    rw [hnone] at herror
    cases herror
  | none =>
    rw [herror] at h
    dsimp only at h
    split_ifs at h with hret hok
    · exact .inr hret
    · exact absurd (Except.error.inj h).symm htext

/-- A refused request changes nothing. -/
theorem answer_of_refuses
    (hclean : ∀ name handler, some (name, handler) ∈ svc.methods → FailsClean handler)
    {m : Message} {s : σ} (h : svc.refuses cfg m s = true) : (svc.answer cfg m s).2 = s := by
  unfold refuses at h
  unfold answer at h ⊢
  split_ifs at h ⊢ with hlarge
  · rfl
  · cases hfind : findMethod svc.methods (m.method cfg) with
    | none => rfl
    | some handler =>
      rw [hfind] at h
      dsimp only at h ⊢
      split_ifs at h ⊢ with hparse
      · rfl
      · dsimp only at h ⊢
        cases hran : svc.ranAnswer
          (handler (m.method cfg) ((JsonReader.new 32).parse m.paramsJson).2 s).1 with
        | ok result =>
          rw [hran] at h
          cases h
        | error text =>
          rw [hran] at h
          exact hclean _ _ (findMethod_mem hfind) _ _ _
            (svc.fails_of_ranAnswer hran (of_decide_eq_true h))

/-- Without the refused requests the others are served alike. -/
theorem serveAll_lasting
    (hclean : ∀ name handler, some (name, handler) ∈ svc.methods → FailsClean handler)
    (ms : List Message) (s : σ) :
    (svc.serveAll cfg (svc.lasting cfg ms s) s).2 = (svc.serveAll cfg ms s).2 ∧
      (svc.serveAll cfg (svc.lasting cfg ms s) s).1.Sublist (svc.serveAll cfg ms s).1 := by
  induction ms generalizing s with
  | nil => exact ⟨rfl, List.Sublist.refl _⟩
  | cons m rest ih =>
    obtain ⟨hstate, hbodies⟩ := ih (svc.answer cfg m s).2
    rw [lasting]
    split_ifs with hrefused
    · have hsame := svc.answer_of_refuses hclean hrefused
      rw [hsame] at hstate hbodies ⊢
      refine ⟨?_, ?_⟩
      · rw [hstate]
        show _ = (svc.serveAll cfg rest (svc.answer cfg m s).2).2
        rw [hsame]
      · show List.Sublist _ (_ :: (svc.serveAll cfg rest (svc.answer cfg m s).2).1)
        rw [hsame]
        exact hbodies.cons _
    · exact ⟨hstate, hbodies.cons_cons _⟩

end Service

/-! ## The device -/

section Device

variable {cfg : Config} {resultMax : Nat} {hmax : 256 ≤ resultMax} {errName : EspErr → Bytes}
  {hname : ∀ e, e ≠ .ok → errName e ≠ []} {ext : Extensions (resultMax / 2) τ}

/-- **Refused requests leave nothing behind.** In any run of the server with the built-in methods
and any others that change nothing unless they succeed, the state that the handlers have left is
that of serving only the requests which were not refused, and these are answered as they were. If
the other methods write keyed members too, a response buffer of 690 bytes makes every answer a
whole JSON object. -/
theorem refusals_leave_nothing (hclean : ext.All FailsClean) (respBuf : Buf resultMax)
    (app : DeviceState (resultMax / 2) τ)
    {p : Server cfg (deviceService resultMax hmax errName hname ext) × ServerLog cfg}
    (h : (serving cfg (deviceService resultMax hmax errName hname ext) respBuf app).ReachBy
      (fun p a => AnswersAccepted p a ∧ ¬ a.IsOutside) p) :
    let svc := deviceService resultMax hmax errName hname ext
    let lasting := svc.lasting cfg ((atDesk p).served.map Prod.fst) app
    (svc.serveAll cfg lasting app).2 = p.1.app ∧
      (svc.serveAll cfg lasting app).1.Sublist ((atDesk p).served.map Prod.snd) ∧
      (690 ≤ resultMax → ext.All WritesMembers → ∀ e ∈ p.2.requests.sent, IsWhole e.2.data) := by
  intro svc lasting
  have hdesk : (desk cfg svc app).ReachBy (fun _ a => ¬ a.IsOutside) (atDesk p) :=
    atDesk_reachBy (fun _ _ hg => hg.1) (fun _ _ _ _ hg hout hno => hg.2 (hout hno)) h
  obtain ⟨hstate, hbodies⟩ := svc.serveAll_lasting
    (fun _ _ hmem => forall_mem_methods (failsClean_builtin ext.cmds) hclean hmem)
    ((atDesk p).served.map Prod.fst) app
  rw [Desk.served_all hdesk] at hstate hbodies
  refine ⟨hstate, hbodies, fun hwhole hwrites e he => ?_⟩
  have hsize : 0 < resultMax / 2 := by omega
  have hbalanced : Balanced svc.methods := fun _ _ hmem =>
    forall_mem_methods (writesMembers_builtin hsize ext.cmds) hwrites hmem
  obtain ⟨m, s, hdata⟩ := sent_served (h.mono fun _ _ hg => hg.1) e he
  rw [hdata]
  exact svc.whole_serve hwhole hbalanced m s

end Device

/-- A device without methods or commands of the application. -/
def deviceSample : Service (DeviceState 384 Unit) :=
  deviceService 768 (Nat.le_of_ble_eq_true rfl) errNameSample errNameSample_ne ⟨[], []⟩

/-- It has just started. -/
def deviceStart : DeviceState 384 Unit where
  builtin := .sample
  timer := none
  shellOut := .zero 384
  taskRoom := true
  facts := ⟨[], [], [], [], [], [], [], [], 0, 0, 0, 0, 0, 0, 0⟩
  app := ()

/-- Two requests to reboot, one after the other. -/
def twoReboots : List (ServerAct (DeviceState 384 Unit)) :=
  let asked : List (ServerAct (DeviceState 384 Unit)) :=
    [.link (.first (askFor (ascii "reboot")) 2), .link .mqtt, .link .mqtt, .link .mqtt,
      .link .mqtt, .link .mqtt, .link (.task .take), .handle,
      .link (.task (.respondOwn ⟨true, .ok, 7⟩)), .link (.task .giveBack)]
  [.link (.connected true), .link .mqtt] ++ asked ++ asked

/-- The second one is refused, and the timer stays as the first one has set it. -/
theorem refusals_leave_nothing_sample :
    ∃ p : Server .sample deviceSample × ServerLog .sample,
      (atDesk p).served.length = 2 ∧ p.1.app.timer = some 500000 ∧
        (deviceSample.lasting .sample ((atDesk p).served.map Prod.fst) deviceStart).length = 1 ∧
        (deviceSample.serveAll .sample
          (deviceSample.lasting .sample ((atDesk p).served.map Prod.fst) deviceStart)
          deviceStart).2 = p.1.app := by
  have hrun : ((serving .sample deviceSample (.zero 768) deviceStart).runBy
      (fun p a => AnswersAccepted p a ∧ ¬ a.IsOutside)
      (serving .sample deviceSample (.zero 768) deviceStart).init twoReboots).map
      (fun p => decide ((atDesk p).served.length = 2 ∧ p.1.app.timer = some 500000 ∧
        (deviceSample.lasting .sample ((atDesk p).served.map Prod.fst) deviceStart).length = 1)) =
      some true := by
    decide +kernel
  obtain ⟨p, hp, hcheck⟩ := Lts.exists_reachBy_of_runBy hrun
  obtain ⟨hserved, htimer, hlasting⟩ := of_decide_eq_true hcheck
  exact ⟨p, hserved, htimer, hlasting,
    (refusals_leave_nothing (by rintro reg ⟨⟩) (.zero 768) deviceStart hp).1⟩

end SoulCloud
