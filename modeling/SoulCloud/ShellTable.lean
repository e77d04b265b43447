import SoulCloud.Config
import SoulCloud.Shell

/-!
# Finding a shell command

Commands are added under names of one or several words, and a line runs the one with the longest
name among those it begins with.

- `ShellAdd`, `addCommand`, `addCommands`: `sc_shell::add`, and any calls of it.
- `lastCommand`: what was last added under a name.
- `mem_addCommands`: the table holds exactly the commands that were last added.
- `nameMatches_iff`: a name matches if it is the beginning of the words, with single spaces.
- `shell_run_longest`: **a line runs the command with the longest name that it begins with.**
-/

namespace SoulCloud

open Bytes

variable {σ : Type}

/-! ## Adding commands -/

/-- The arguments of `sc_shell::add`; `none` is a null pointer or an empty function. -/
structure ShellAdd (σ : Type) where
  name : Option Bytes
  help : Option Bytes
  handler : Option (ShellHandler σ)

/-- `cmds`: an entry is free while its name is null. -/
abbrev ShellTable (σ : Type) := List (Option (ShellCommand σ))

/-- The loop of `add`: the first entry that is free or has the name. -/
def putCommand (cmd : ShellCommand σ) : ShellTable σ → EspErr × ShellTable σ
  | [] => (.noMem, [])
  | none :: rest => (.ok, some cmd :: rest)
  | some entry :: rest =>
    if entry.name = cmd.name then (.ok, some cmd :: rest)
    else
      let added := putCommand cmd rest
      (added.1, some entry :: added.2)

/-- `sc_shell::add`. -/
def addCommand (cmds : ShellTable σ) (reg : ShellAdd σ) : EspErr × ShellTable σ :=
  match reg.name, reg.handler with
  | some name, some handler =>
    if name = [] then (.invalidArg, cmds) else putCommand ⟨name, reg.help, handler⟩ cmds
  | _, _ => (.invalidArg, cmds)

/-- The table of `slots` entries (`CONFIG_SOULCLOUD_SHELL_MAX_CMDS`) after these calls, and what
each of them returned. -/
def addCommands (slots : Nat) (regs : List (ShellAdd σ)) :
    ShellTable σ × List (ShellAdd σ × EspErr) :=
  regs.foldl
    (fun state reg =>
      let added := addCommand state.1 reg
      (added.2, state.2 ++ [(reg, added.1)]))
    (List.replicate slots none, [])

/-- The command that the last call for this name to return `ESP_OK` added. -/
def lastCommand (log : List (ShellAdd σ × EspErr)) (name : Bytes) : Option (ShellCommand σ) :=
  log.foldl
    (fun found entry =>
      if entry.2 = .ok ∧ entry.1.name = some name then
        entry.1.handler.map fun handler => ⟨name, entry.1.help, handler⟩
      else found)
    none

/-! ## What the table holds -/

/-- What a call of `add` makes of the entries and the number of free ones: it replaces the entry
of that name, or takes a free one for a new name, or there is none. -/
inductive Puts (cmd : ShellCommand σ) : List (ShellCommand σ) → Nat → EspErr →
    List (ShellCommand σ) → Nat → Prop
  | replaced {before after : List (ShellCommand σ)} {old : ShellCommand σ} {free : Nat}
      (hname : old.name = cmd.name) :
      Puts cmd (before ++ old :: after) free .ok (before ++ cmd :: after) free
  | added {entries : List (ShellCommand σ)} {free : Nat} (hnew : ∀ e ∈ entries, e.name ≠ cmd.name) :
      Puts cmd entries (free + 1) .ok (entries ++ [cmd]) free
  | full {entries : List (ShellCommand σ)} (hnew : ∀ e ∈ entries, e.name ≠ cmd.name) :
      Puts cmd entries 0 .noMem entries 0

/-- The table: its entries, and the free ones behind them. -/
def tableOf (entries : List (ShellCommand σ)) (free : Nat) : ShellTable σ :=
  entries.map some ++ List.replicate free none

theorem puts_putCommand (cmd : ShellCommand σ) (entries : List (ShellCommand σ)) (free : Nat) :
    ∃ entries' free', (putCommand cmd (tableOf entries free)).2 = tableOf entries' free' ∧
      Puts cmd entries free (putCommand cmd (tableOf entries free)).1 entries' free' := by
  induction entries with
  | nil =>
    cases free with
    | zero => exact ⟨[], 0, rfl, .full nofun⟩
    | succ free => exact ⟨[cmd], free, rfl, .added nofun⟩
  | cons entry rest ih =>
    have hcons : tableOf (entry :: rest) free = some entry :: tableOf rest free := rfl
    rw [hcons]
    by_cases hname : entry.name = cmd.name
    · have hput : putCommand cmd (some entry :: tableOf rest free) =
          (.ok, some cmd :: tableOf rest free) := if_pos hname
      rw [hput]
      exact ⟨cmd :: rest, free, rfl, @Puts.replaced σ cmd [] rest entry free hname⟩
    · have hput : putCommand cmd (some entry :: tableOf rest free) =
          ((putCommand cmd (tableOf rest free)).1,
            some entry :: (putCommand cmd (tableOf rest free)).2) := if_neg hname
      obtain ⟨entries', free', htable, hputs⟩ := ih
      rw [hput]
      refine ⟨entry :: entries', free', congrArg (some entry :: ·) htable, ?_⟩
      have hnew : ∀ {es : List (ShellCommand σ)}, (∀ e ∈ es, e.name ≠ cmd.name) →
          ∀ e ∈ entry :: es, e.name ≠ cmd.name := by
        intro es hes e he
        rcases List.mem_cons.mp he with rfl | he
        · exact hname
        · exact hes e he
      dsimp only at hputs ⊢
      generalize (putCommand cmd (tableOf rest free)).1 = err at hputs
      cases hputs with
      | @replaced before after old _ hold =>
        exact @Puts.replaced σ cmd (entry :: before) after old free hold
      | added hes => exact .added (hnew hes)
      | full hes => exact .full (hnew hes)

/-- After a call that succeeds the entry of the name is the new one, and the others are there
still. -/
theorem Puts.mem {cmd : ShellCommand σ} {entries entries' : List (ShellCommand σ)}
    {free free' : Nat} (h : Puts cmd entries free .ok entries' free')
    (hnodup : (entries.map (·.name)).Nodup) :
    (entries'.map (·.name)).Nodup ∧
      ∀ c, c ∈ entries' ↔ if c.name = cmd.name then c = cmd else c ∈ entries := by
  cases h with
  | @replaced before after old _ hold =>
    simp only [List.map_append, List.map_cons] at hnodup
    have hothers : ∀ e, e ∈ before ∨ e ∈ after → e.name ≠ cmd.name := by
      intro e he heq
      have hnot := (List.nodup_cons.mp (List.nodup_middle.mp hnodup)).1
      rw [List.mem_append, ← heq.trans hold.symm] at hnot
      exact hnot (he.imp List.mem_map_of_mem List.mem_map_of_mem)
    constructor
    · rw [List.map_append, List.map_cons, ← hold]
      exact hnodup
    · intro c
      rw [List.mem_append, List.mem_cons]
      split_ifs with hc
      · constructor
        · rintro (hb | rfl | ha)
          · exact absurd hc (hothers c (.inl hb))
          · rfl
          · exact absurd hc (hothers c (.inr ha))
        · exact fun heq => .inr (.inl heq)
      · have hcmd : c ≠ cmd := fun heq => hc (congrArg ShellCommand.name heq)
        have hne : c ≠ old := fun heq => hc ((congrArg ShellCommand.name heq).trans hold)
        rw [List.mem_append, List.mem_cons]
        simp only [hcmd, hne, false_or]
  | added hnew =>
    constructor
    · rw [List.map_append, List.nodup_append]
      refine ⟨hnodup, List.nodup_singleton _, ?_⟩
      intro a ha b hb
      obtain ⟨e, he, rfl⟩ := List.mem_map.mp ha
      rw [List.mem_singleton.mp hb]
      exact hnew e he
    · intro c
      rw [List.mem_append, List.mem_singleton]
      split_ifs with hc
      · exact ⟨fun h => h.resolve_left fun hmem => hnew c hmem hc, .inr⟩
      · have hcmd : c ≠ cmd := fun heq => hc (congrArg ShellCommand.name heq)
        simp only [hcmd, or_false]

/-- What the table holds after the calls in `log`: every entry is the last command of its name. -/
structure Registered (cmds : ShellTable σ) (log : List (ShellAdd σ × EspErr))
    (entries : List (ShellCommand σ)) (free : Nat) : Prop where
  table : cmds = tableOf entries free
  nodup : (entries.map (·.name)).Nodup
  mem : ∀ cmd, cmd ∈ entries ↔ lastCommand log cmd.name = some cmd
  name : ∀ n cmd, lastCommand log n = some cmd → cmd.name = n

/-- A call that fails leaves the last commands as they were. -/
theorem lastCommand_failed (log : List (ShellAdd σ × EspErr)) (reg : ShellAdd σ) {err : EspErr}
    (herr : err ≠ .ok) (n : Bytes) : lastCommand (log ++ [(reg, err)]) n = lastCommand log n := by
  rw [lastCommand]
  rw [List.foldl_append]
  exact if_neg fun h => herr h.1

/-- A call that succeeds changes the command of its name. -/
theorem lastCommand_ok (log : List (ShellAdd σ × EspErr)) {reg : ShellAdd σ} {cmd : ShellCommand σ}
    (hname : reg.name = some cmd.name) (hhandler : reg.handler = some cmd.handler)
    (hhelp : reg.help = cmd.help) (n : Bytes) :
    lastCommand (log ++ [(reg, .ok)]) n =
      if n = cmd.name then some cmd else lastCommand log n := by
  unfold lastCommand
  rw [List.foldl_append]
  simp only [List.foldl_cons, List.foldl_nil, hname, hhandler, hhelp, Option.some.injEq, true_and,
    Option.map_some]
  by_cases hn : cmd.name = n
  · subst hn
    rw [if_pos rfl]
  · rw [if_neg hn, if_neg (Ne.symm hn)]

/-- After a call that fails the table holds what it held. -/
theorem Registered.failed {cmds : ShellTable σ} {log : List (ShellAdd σ × EspErr)}
    {entries : List (ShellCommand σ)} {free : Nat} (h : Registered cmds log entries free)
    (reg : ShellAdd σ) {err : EspErr} (herr : err ≠ .ok) :
    Registered cmds (log ++ [(reg, err)]) entries free := by
  have hsame := lastCommand_failed log reg herr
  constructor
  · exact h.table
  · exact h.nodup
  · intro cmd
    rw [hsame]
    exact h.mem cmd
  · intro n cmd
    rw [hsame]
    exact h.name n cmd

/-- **Step lemma**: a call of `add` with a name and a handler. -/
theorem Registered.put {cmds : ShellTable σ} {log : List (ShellAdd σ × EspErr)}
    {entries : List (ShellCommand σ)} {free : Nat} (h : Registered cmds log entries free)
    {reg : ShellAdd σ} {cmd : ShellCommand σ} (hname : reg.name = some cmd.name)
    (hhandler : reg.handler = some cmd.handler) (hhelp : reg.help = cmd.help) :
    ∃ entries' free', Registered (putCommand cmd cmds).2 (log ++ [(reg, (putCommand cmd cmds).1)])
        entries' free' ∧
      ((putCommand cmd cmds).1 = .noMem → free = 0 ∧ lastCommand log cmd.name = none) := by
  obtain ⟨entries', free', htable, hputs⟩ := puts_putCommand cmd entries free
  rw [← h.table] at htable hputs
  refine ⟨entries', free', ?_, ?_⟩
  · by_cases hok : (putCommand cmd cmds).1 = .ok
    · rw [hok] at hputs ⊢
      obtain ⟨hnodup, hmem⟩ := hputs.mem h.nodup
      have hlast := lastCommand_ok log hname hhandler hhelp
      constructor
      · exact htable
      · exact hnodup
      · intro c
        rw [hmem, hlast]
        split_ifs with hc
        · exact ⟨fun heq => congrArg some heq.symm, fun heq => (Option.some.inj heq).symm⟩
        · exact h.mem c
      · intro n c hc
        rw [hlast] at hc
        split_ifs at hc with hn
        · cases hc
          exact hn.symm
        · exact h.name n c hc
    · have hfailed := h.failed reg hok
      generalize (putCommand cmd cmds).1 = err at hputs hok hfailed
      cases hputs with
      | replaced => exact absurd rfl hok
      | added => exact absurd rfl hok
      | full => exact ⟨htable, hfailed.nodup, hfailed.mem, hfailed.name⟩
  · intro herr
    rw [herr] at hputs
    cases hputs with
    | full hnew =>
      refine ⟨rfl, ?_⟩
      cases hlog : lastCommand log cmd.name with
      | none => rfl
      | some c =>
        have hc := h.name cmd.name c hlog
        have hentry : c ∈ entries := (h.mem c).mpr (by rw [hc, hlog])
        exact absurd hc (hnew c hentry)

/-- **Step lemma**: any call of `add`. -/
theorem Registered.add {cmds : ShellTable σ} {log : List (ShellAdd σ × EspErr)}
    {entries : List (ShellCommand σ)} {free : Nat} (h : Registered cmds log entries free)
    (reg : ShellAdd σ) :
    ∃ entries' free', Registered (addCommand cmds reg).2 (log ++ [(reg, (addCommand cmds reg).1)])
        entries' free' ∧
      ((addCommand cmds reg).1 = .noMem → free = 0 ∧
        ∃ name, reg.name = some name ∧ lastCommand log name = none) := by
  rw [addCommand]
  split
  · rename_i name handler hname hhandler
    split_ifs with hempty
    · exact ⟨entries, free, h.failed reg nofun, nofun⟩
    · obtain ⟨entries', free', hreg, hfull⟩ :=
        @Registered.put σ cmds log entries free h reg ⟨name, reg.help, handler⟩ hname hhandler rfl
      refine ⟨entries', free', hreg, fun herr => ?_⟩
      obtain ⟨hfree, hnew⟩ := hfull herr
      exact ⟨hfree, name, hname, hnew⟩
  · exact ⟨entries, free, h.failed reg nofun, nofun⟩

/-- One more call. -/
theorem addCommands_append (slots : Nat) (regs : List (ShellAdd σ)) (reg : ShellAdd σ) :
    addCommands slots (regs ++ [reg]) =
      ((addCommand (addCommands slots regs).1 reg).2,
        (addCommands slots regs).2 ++ [(reg, (addCommand (addCommands slots regs).1 reg).1)]) := by
  rw [addCommands, List.foldl_append]
  rfl

/-- **Run lemma**: the table holds the last command of every name that was added. -/
theorem registered_addCommands (slots : Nat) (regs : List (ShellAdd σ)) :
    ∃ entries free, Registered (addCommands slots regs).1 (addCommands slots regs).2 entries
      free := by
  induction regs using List.reverseRecOn with
  | nil => exact ⟨[], slots, ⟨rfl, List.nodup_nil, fun _ => ⟨nofun, nofun⟩, nofun⟩⟩
  | append_singleton regs reg ih =>
    obtain ⟨entries, free, h⟩ := ih
    obtain ⟨entries', free', h', -⟩ := h.add reg
    rw [addCommands_append]
    exact ⟨entries', free', h'⟩

theorem mem_tableOf {entries : List (ShellCommand σ)} {free : Nat} {cmd : ShellCommand σ} :
    some cmd ∈ tableOf entries free ↔ cmd ∈ entries := by
  simp [tableOf]

/-- **The table holds exactly the commands that were last added.** -/
theorem mem_addCommands (slots : Nat) (regs : List (ShellAdd σ)) (cmd : ShellCommand σ) :
    some cmd ∈ (addCommands slots regs).1 ↔
      lastCommand (addCommands slots regs).2 cmd.name = some cmd := by
  obtain ⟨entries, free, h⟩ := registered_addCommands slots regs
  rw [h.table, mem_tableOf]
  exact h.mem cmd

theorem name_lastCommand {slots : Nat} {regs : List (ShellAdd σ)} {n : Bytes}
    {cmd : ShellCommand σ} (h : lastCommand (addCommands slots regs).2 n = some cmd) :
    cmd.name = n := by
  obtain ⟨entries, free, hreg⟩ := registered_addCommands slots regs
  exact hreg.name n cmd h

/-- Only a call with a name and a handler succeeds. -/
theorem handler_of_ok {cmds : ShellTable σ} {reg : ShellAdd σ}
    (h : (addCommand cmds reg).1 = .ok) :
    ∃ cmd : ShellCommand σ, reg.name = some cmd.name ∧ reg.handler = some cmd.handler ∧
      reg.help = cmd.help := by
  rw [addCommand] at h
  split at h
  · rename_i name handler hname hhandler
    exact ⟨⟨name, reg.help, handler⟩, hname, hhandler, rfl⟩
  · cases h

/-- **A name is in the table if a call of `add` with it returned `ESP_OK`.** -/
theorem lastCommand_ne_none_iff (slots : Nat) (regs : List (ShellAdd σ)) (n : Bytes) :
    lastCommand (addCommands slots regs).2 n ≠ none ↔
      ∃ reg, (reg, .ok) ∈ (addCommands slots regs).2 ∧ reg.name = some n := by
  induction regs using List.reverseRecOn with
  | nil =>
    constructor
    · exact fun h => absurd rfl h
    · rintro ⟨reg, hmem, -⟩
      cases hmem
  | append_singleton regs reg ih =>
    rw [addCommands_append]
    dsimp only
    by_cases hok : (addCommand (addCommands slots regs).1 reg).1 = .ok
    · obtain ⟨cmd, hname, hhandler, hhelp⟩ := handler_of_ok hok
      rw [hok, lastCommand_ok _ hname hhandler hhelp]
      split_ifs with hn
      · exact ⟨fun _ => ⟨reg, List.mem_append_right _ List.mem_cons_self, hn ▸ hname⟩, nofun⟩
      · rw [ih]
        constructor
        · rintro ⟨r, hmem, hr⟩
          exact ⟨r, List.mem_append_left _ hmem, hr⟩
        · rintro ⟨r, hmem, hr⟩
          rcases List.mem_append.mp hmem with hmem | hmem
          · exact ⟨r, hmem, hr⟩
          · -- the new call is about another name
            cases List.mem_singleton.mp hmem
            exact absurd (Option.some.inj (hr.symm.trans hname)) hn
    · rw [lastCommand_failed _ reg hok, ih]
      constructor
      · rintro ⟨r, hmem, hr⟩
        exact ⟨r, List.mem_append_left _ hmem, hr⟩
      · rintro ⟨r, hmem, hr⟩
        rcases List.mem_append.mp hmem with hmem | hmem
        · exact ⟨r, hmem, hr⟩
        · exact absurd (congrArg Prod.snd (List.mem_singleton.mp hmem)).symm hok

/-! ## Words -/

/-- The words of a line: what stands between blanks, tabs and line ends. -/
def lineWords (line : Bytes) : List Bytes := (line.splitOnP isBlank).filter (· ≠ [])

/-- Words with single spaces between them. -/
def joined (words : List Bytes) : Bytes := [32].intercalate words

theorem strtok_eq_splitOnPPrepend (word rest : Bytes) :
    strtok word rest = (List.splitOnPPrepend isBlank rest word.reverse).filter (· ≠ []) := by
  induction rest generalizing word with
  | nil =>
    rw [strtok]
    by_cases hnil : word = []
    · rw [if_pos hnil, hnil]
      rfl
    · rw [if_neg hnil, List.splitOnPPrepend_nil, List.reverse_reverse]
      simp [hnil]
  | cons c rest ih =>
    rw [strtok]
    rw [List.splitOnPPrepend_cons_eq_if, List.reverse_reverse]
    split_ifs with hblank hnil
    · rw [ih, List.reverse_nil, hnil, List.splitOnPPrepend_nil_right]
      simp
    · rw [ih, List.reverse_nil, List.splitOnPPrepend_nil_right]
      simp [hnil]
    · rw [ih, List.reverse_append]
      rfl

/-- `strtok_r` finds the words. -/
theorem strtok_eq_lineWords (line : Bytes) : strtok [] line = lineWords line :=
  strtok_eq_splitOnPPrepend [] line

/-- There is no blank in a word. -/
theorem not_blank_of_mem {word rest w : Bytes} (hword : ∀ c ∈ word, isBlank c = false)
    (h : w ∈ strtok word rest) : ∀ c ∈ w, isBlank c = false := by
  induction rest generalizing word with
  | nil =>
    rw [strtok] at h
    split_ifs at h
    · cases h
    · rwa [List.mem_singleton.mp h]
  | cons c rest ih =>
    have hnone : ∀ c ∈ ([] : Bytes), isBlank c = false := by
      intro c hc
      cases hc
    rw [strtok] at h
    split_ifs at h with hblank hnil
    · exact ih hnone h
    · rcases List.mem_cons.mp h with rfl | h
      · exact hword
      · exact ih hnone h
    · have hlonger : ∀ d ∈ word ++ [c], isBlank d = false := by
        intro d hd
        rcases List.mem_append.mp hd with hd | hd
        · exact hword d hd
        · rw [List.mem_singleton.mp hd]
          exact Bool.eq_false_iff.mpr hblank
      exact ih hlonger h

theorem nameWords_eq_splitOnPPrepend (word rest : Bytes) :
    nameWords word rest = List.splitOnPPrepend (· == 32) rest word.reverse := by
  induction rest generalizing word with
  | nil => rw [nameWords, List.splitOnPPrepend_nil, List.reverse_reverse]
  | cons c rest ih =>
    rw [nameWords]
    rw [List.splitOnPPrepend_cons_eq_if, List.reverse_reverse]
    by_cases hc : c = 32
    · rw [if_pos hc, if_pos (beq_iff_eq.mpr hc), ih]
      rfl
    · rw [if_neg hc, if_neg (by simpa using hc), ih, List.reverse_append]
      rfl

theorem nameWords_eq_splitOn (name : Bytes) : nameWords [] name = name.splitOn 32 :=
  nameWords_eq_splitOnPPrepend [] name

/-- **A name matches if it is the beginning of the words, with single spaces.** -/
theorem nameMatches_iff {words : List Bytes} (hwords : ∀ w ∈ words, (32 : UInt8) ∉ w)
    (name : Bytes) :
    nameMatches name words = true ↔ ∃ ws, ws ≠ [] ∧ ws <+: words ∧ name = joined ws := by
  rw [nameMatches]
  rw [nameWords_eq_splitOn, List.isPrefixOf_iff_prefix]
  constructor
  · intro h
    exact ⟨name.splitOn 32, List.splitOn_ne_nil 32 name, h, (List.intercalate_splitOn 32).symm⟩
  · rintro ⟨ws, hne, hbegins, rfl⟩
    rw [joined]
    rwa [List.splitOn_intercalate 32 (fun w hw => hwords w (hbegins.subset hw)) hne]

theorem length_nameWords (word rest : Bytes) :
    (nameWords word rest).length = 1 + rest.count 32 := by
  induction rest generalizing word with
  | nil => rfl
  | cons c rest ih =>
    rw [nameWords]
    by_cases hc : c = 32
    · rw [if_pos hc, List.length_cons, ih, hc, List.count_cons_self]
      omega
    · rw [if_neg hc, ih, List.count_cons_of_ne hc]

/-- The words of a name that can match are counted right in 8 bits. -/
theorem countWords_joined {ws : List Bytes} (hne : ws ≠ []) (hwords : ∀ w ∈ ws, (32 : UInt8) ∉ w)
    (hlen : ws.length ≤ 255) : countWords (joined ws) = ws.length := by
  have hcount := length_nameWords [] (joined ws)
  rw [nameWords_eq_splitOn, joined, List.splitOn_intercalate 32 hwords hne] at hcount
  rw [countWords]
  rw [joined, ← hcount]
  omega

/-! ## The command of a line -/

/-- **The loop of `run`** keeps a matching command with the most words. -/
theorem best_spec (argv : List Bytes) (cmds : ShellTable σ) :
    match cmds.foldl (betterCommand argv) none with
    | none => ∀ cmd, some cmd ∈ cmds → nameMatches cmd.name argv = false
    | some best => some best ∈ cmds ∧ nameMatches best.name argv = true ∧
        ∀ cmd, some cmd ∈ cmds → nameMatches cmd.name argv = true →
          countWords cmd.name ≤ countWords best.name := by
  induction cmds using List.reverseRecOn with
  | nil => exact nofun
  | append_singleton cmds slot ih =>
    rw [List.foldl_append]
    simp only [List.foldl_cons, List.foldl_nil]
    cases slot with
    | none =>
      simp only [betterCommand, List.mem_append, List.mem_singleton, reduceCtorEq, or_false]
      exact ih
    | some new =>
      have hmem : ∀ cmd, some cmd ∈ cmds ++ [some new] ↔ some cmd ∈ cmds ∨ cmd = new := by
        intro cmd
        rw [List.mem_append, List.mem_singleton, Option.some.injEq]
      cases hbest : cmds.foldl (betterCommand argv) none with
      | none =>
        rw [hbest] at ih
        dsimp only at ih
        simp only [betterCommand, Bool.true_and]
        split_ifs with hmatch
        · refine ⟨(hmem new).mpr (.inr rfl), hmatch, fun cmd hcmd hmatches => ?_⟩
          rcases (hmem cmd).mp hcmd with hold | rfl
          · rw [ih cmd hold] at hmatches
            cases hmatches
          · exact Nat.le_refl _
        · intro cmd hcmd
          rcases (hmem cmd).mp hcmd with hold | rfl
          · exact ih cmd hold
          · exact Bool.eq_false_iff.mpr hmatch
      | some best =>
        rw [hbest] at ih
        obtain ⟨hin, hmatches, hmost⟩ := ih
        simp only [betterCommand]
        split_ifs with hbetter
        · rw [Bool.and_eq_true, decide_eq_true_eq] at hbetter
          obtain ⟨hlonger, hmatch⟩ := hbetter
          refine ⟨(hmem new).mpr (.inr rfl), hmatch, fun cmd hcmd hcmdmatches => ?_⟩
          rcases (hmem cmd).mp hcmd with hold | rfl
          · exact (hmost cmd hold hcmdmatches).trans hlonger.le
          · exact Nat.le_refl _
        · refine ⟨(hmem best).mpr (.inl hin), hmatches, fun cmd hcmd hcmdmatches => ?_⟩
          rcases (hmem cmd).mp hcmd with hold | rfl
          · exact hmost cmd hold hcmdmatches
          · by_contra hlonger
            refine hbetter ?_
            rw [Bool.and_eq_true, decide_eq_true_eq]
            exact ⟨Nat.not_le.mp hlonger, hcmdmatches⟩

/-- The words that a command line passes on: at most 16. -/
def commandWords (line : Bytes) : List Bytes := (lineWords line).take maxArgs

theorem commandWords_no_blank {line w : Bytes} (h : w ∈ commandWords line) : (32 : UInt8) ∉ w := by
  have hmem : w ∈ strtok [] line := by
    rw [strtok_eq_lineWords]
    exact List.mem_of_mem_take h
  have hnone : ∀ c ∈ ([] : Bytes), isBlank c = false := by
    intro c hc
    cases hc
  intro hblank
  exact absurd (not_blank_of_mem hnone hmem 32 hblank) (by decide)

theorem length_commandWords (line : Bytes) : (commandWords line).length ≤ 16 :=
  List.length_take_le _ _

/-- The words `ws` are the longest of the beginnings of `words` that name a command. -/
structure Longest (log : List (ShellAdd σ × EspErr)) (words ws : List Bytes)
    (cmd : ShellCommand σ) : Prop where
  ne : ws ≠ []
  begins : ws <+: words
  command : lastCommand log (joined ws) = some cmd
  longest : ∀ ws', ws.length < ws'.length → ws' <+: words → lastCommand log (joined ws') = none

/-- No beginning of `words` names a command. -/
def NoneNamed (log : List (ShellAdd σ × EspErr)) (words : List Bytes) : Prop :=
  ∀ ws, ws ≠ [] → ws <+: words → lastCommand log (joined ws) = none

/-- The words of a beginning are counted right. -/
theorem countWords_begins {line : Bytes} {ws : List Bytes} (hne : ws ≠ [])
    (hbegins : ws <+: commandWords line) : countWords (joined ws) = ws.length := by
  have hlen := hbegins.length_le.trans (length_commandWords line)
  exact countWords_joined hne (fun w hw => commandWords_no_blank (hbegins.subset hw)) (by omega)

/-- What the loop of `run` ends with. -/
theorem best_addCommands (slots : Nat) (regs : List (ShellAdd σ)) (line : Bytes) :
    match (addCommands slots regs).1.foldl (betterCommand (commandWords line)) none with
    | none => NoneNamed (addCommands slots regs).2 (commandWords line)
    | some best => ∃ ws, Longest (addCommands slots regs).2 (commandWords line) ws best := by
  have hmatches : ∀ name, nameMatches name (commandWords line) = true ↔
      ∃ ws, ws ≠ [] ∧ ws <+: commandWords line ∧ name = joined ws :=
    nameMatches_iff fun _ => commandWords_no_blank
  have hspec := best_spec (commandWords line) (addCommands slots regs).1
  -- A beginning that names a command is the name of a matching entry.
  have hentry : ∀ ws, ws ≠ [] → ws <+: commandWords line → ∀ cmd,
      lastCommand (addCommands slots regs).2 (joined ws) = some cmd →
        some cmd ∈ (addCommands slots regs).1 ∧
          nameMatches cmd.name (commandWords line) = true ∧ cmd.name = joined ws := by
    intro ws hne hbegins cmd hcmd
    have hname := name_lastCommand hcmd
    refine ⟨(mem_addCommands slots regs cmd).mpr (by rw [hname, hcmd]), ?_, hname⟩
    exact (hmatches cmd.name).mpr ⟨ws, hne, hbegins, hname⟩
  cases hbest : (addCommands slots regs).1.foldl (betterCommand (commandWords line)) none with
  | none =>
    rw [hbest] at hspec
    intro ws hne hbegins
    cases hcmd : lastCommand (addCommands slots regs).2 (joined ws) with
    | none => rfl
    | some cmd =>
      obtain ⟨hin, hmatch, -⟩ := hentry ws hne hbegins cmd hcmd
      rw [hspec cmd hin] at hmatch
      cases hmatch
  | some best =>
    rw [hbest] at hspec
    obtain ⟨hin, hmatch, hmost⟩ := hspec
    obtain ⟨ws, hne, hbegins, hname⟩ := (hmatches best.name).mp hmatch
    refine ⟨ws, hne, hbegins, ?_, fun ws' hlonger hbegins' => ?_⟩
    · rw [← hname]
      exact (mem_addCommands slots regs best).mp hin
    · cases hcmd : lastCommand (addCommands slots regs).2 (joined ws') with
      | none => rfl
      | some cmd =>
        have hne' : ws' ≠ [] := List.ne_nil_of_length_pos (by omega)
        obtain ⟨hin', hmatch', hname'⟩ := hentry ws' hne' hbegins' cmd hcmd
        have hle := hmost cmd hin' hmatch'
        rw [hname, hname', countWords_begins hne hbegins, countWords_begins hne' hbegins'] at hle
        omega

/-- The longest beginning is one, and so is its command. -/
theorem Longest.unique {log : List (ShellAdd σ × EspErr)} {words ws ws' : List Bytes}
    {cmd cmd' : ShellCommand σ} (h : Longest log words ws cmd) (h' : Longest log words ws' cmd') :
    ws = ws' ∧ cmd = cmd' := by
  have hnot : ¬ ws.length < ws'.length := fun hlt => by
    have := h.longest ws' hlt h'.begins
    rw [h'.command] at this
    cases this
  have hnot' : ¬ ws'.length < ws.length := fun hlt => by
    have := h'.longest ws hlt h.begins
    rw [h.command] at this
    cases this
  have hws : ws = ws' :=
    (List.prefix_of_prefix_length_le h.begins h'.begins (by omega)).eq_of_length (by omega)
  refine ⟨hws, Option.some.inj ?_⟩
  rw [← h.command, ← h'.command, hws]

/-- What `run` prints for words that name no command. -/
def unknownCommand : List Bytes → List ShellCall
  | [] => []
  | word :: _ =>
    [.printf (some (ascii "Unknown command \"" ++ word ++ ascii "\"; try \"help\"\n"))]

/-- `run` on a line with words, by what the loop ends with. -/
theorem runLine_of_words (cmds : ShellTable σ) {line : Bytes} (hne : commandWords line ≠ [])
    (s : σ) :
    runLine cmds line s =
      match cmds.foldl (betterCommand (commandWords line)) none with
      | none => (⟨unknownCommand (commandWords line), 127⟩, s)
      | some best => best.handler ((commandWords line).drop (countWords best.name)) s := by
  obtain ⟨word, words, hwords⟩ := List.exists_cons_of_ne_nil hne
  have htake : (lineWords line).take maxArgs = word :: words := hwords
  rw [runLine, strtok_eq_lineWords, hwords, htake]
  rfl

/-- **`run` with a command**: it gets the words behind its name. -/
theorem runLine_longest {slots : Nat} {regs : List (ShellAdd σ)} {line : Bytes}
    {ws : List Bytes} {cmd : ShellCommand σ}
    (h : Longest (addCommands slots regs).2 (commandWords line) ws cmd) (s : σ) :
    runLine (addCommands slots regs).1 line s =
      cmd.handler ((commandWords line).drop ws.length) s := by
  have hspec := best_addCommands slots regs line
  have hwords : commandWords line ≠ [] := by
    intro hnil
    have hbegins := h.begins
    rw [hnil] at hbegins
    exact h.ne (List.prefix_nil.mp hbegins)
  rw [runLine_of_words (addCommands slots regs).1 hwords s]
  cases hbest : (addCommands slots regs).1.foldl (betterCommand (commandWords line)) none with
  | none =>
    rw [hbest] at hspec
    have hnone := hspec ws h.ne h.begins
    rw [h.command] at hnone
    cases hnone
  | some best =>
    rw [hbest] at hspec
    obtain ⟨ws', h'⟩ := hspec
    obtain ⟨rfl, rfl⟩ := h.unique h'
    dsimp only
    rw [name_lastCommand h.command, countWords_begins h.ne h.begins]

/-- **`run` without a command** leaves the world as it is. -/
theorem runLine_none {slots : Nat} {regs : List (ShellAdd σ)} {line : Bytes}
    (h : NoneNamed (addCommands slots regs).2 (commandWords line)) (s : σ) :
    runLine (addCommands slots regs).1 line s =
      (⟨unknownCommand (commandWords line), if commandWords line = [] then 0 else 127⟩, s) := by
  by_cases hwords : commandWords line = []
  · have htake : (lineWords line).take maxArgs = [] := hwords
    rw [if_pos hwords, hwords, runLine, strtok_eq_lineWords, htake]
    rfl
  · have hspec := best_addCommands slots regs line
    rw [runLine_of_words (addCommands slots regs).1 hwords s, if_neg hwords]
    cases hbest : (addCommands slots regs).1.foldl (betterCommand (commandWords line)) none with
    | none => rfl
    | some best =>
      rw [hbest] at hspec
      obtain ⟨ws, hlongest⟩ := hspec
      have hnone := h ws hlongest.ne hlongest.begins
      rw [hlongest.command] at hnone
      cases hnone

/-- A line names a command or it does not. -/
theorem noneNamed_or_longest (slots : Nat) (regs : List (ShellAdd σ)) (line : Bytes) :
    NoneNamed (addCommands slots regs).2 (commandWords line) ∨
      ∃ ws cmd, Longest (addCommands slots regs).2 (commandWords line) ws cmd := by
  have hspec := best_addCommands slots regs line
  cases hbest : (addCommands slots regs).1.foldl (betterCommand (commandWords line)) none with
  | none =>
    rw [hbest] at hspec
    exact .inl hspec
  | some best =>
    rw [hbest] at hspec
    obtain ⟨ws, hlongest⟩ := hspec
    exact .inr ⟨ws, best, hlongest⟩

/-- **A line runs the command with the longest name that it begins with.** For any calls of `add`
and any line, with at most 16 words of it: where `ws` are the most words that begin the line
and, with single spaces, are a name that was added, the handler last added for that name runs
with the words behind them; where there are none no handler runs, and the exit code is 0 without
words and 127 with some. Which command it is depends only on what was last added under each name,
and `add` returns `ESP_ERR_NO_MEM` only for a new name when no slot is free. -/
theorem shell_run_longest (slots : Nat) (regs : List (ShellAdd σ)) (line : Bytes) (s : σ) :
    (∀ ws cmd, Longest (addCommands slots regs).2 (commandWords line) ws cmd →
      runLine (addCommands slots regs).1 line s =
          cmd.handler ((commandWords line).drop ws.length) s ∧
        ((commandWords line).length : Int) - countWords cmd.name =
          (((commandWords line).drop ws.length).length : Int)) ∧
    (NoneNamed (addCommands slots regs).2 (commandWords line) →
      runLine (addCommands slots regs).1 line s =
        (⟨unknownCommand (commandWords line), if commandWords line = [] then 0 else 127⟩, s)) ∧
    (∀ slots' (regs' : List (ShellAdd σ)),
      (∀ n, lastCommand (addCommands slots' regs').2 n = lastCommand (addCommands slots regs).2 n) →
        runLine (addCommands slots' regs').1 line s = runLine (addCommands slots regs).1 line s) ∧
    ∀ reg, (addCommand (addCommands slots regs).1 reg).1 = .noMem →
      ∃ name, reg.name = some name ∧ lastCommand (addCommands slots regs).2 name = none ∧
        none ∉ (addCommands slots regs).1 := by
  refine ⟨fun ws cmd h => ⟨runLine_longest h s, ?_⟩, fun h => runLine_none h s, ?_, ?_⟩
  · rw [name_lastCommand h.command, countWords_begins h.ne h.begins, List.length_drop]
    have := h.begins.length_le
    omega
  · intro slots' regs' hsame
    have hlog : lastCommand (addCommands slots' regs').2 =
        lastCommand (addCommands slots regs).2 := funext hsame
    rcases noneNamed_or_longest slots regs line with hnone | ⟨ws, cmd, hlongest⟩
    · have hnone' : NoneNamed (addCommands slots' regs').2 (commandWords line) := by
        intro ws hne hbegins
        rw [hlog]
        exact hnone ws hne hbegins
      rw [runLine_none hnone s, runLine_none hnone' s]
    · have hlongest' : Longest (addCommands slots' regs').2 (commandWords line) ws cmd := by
        obtain ⟨hne, hbegins, hcommand, hmost⟩ := hlongest
        rw [← hlog] at hcommand hmost
        exact ⟨hne, hbegins, hcommand, hmost⟩
      rw [runLine_longest hlongest s, runLine_longest hlongest' s]
  · intro reg herr
    obtain ⟨entries, free, hreg⟩ := registered_addCommands slots regs
    obtain ⟨-, -, -, hfull⟩ := hreg.add reg
    obtain ⟨hfree, name, hname, hnew⟩ := hfull herr
    refine ⟨name, hname, hnew, ?_⟩
    rw [hreg.table, hfree]
    simp [tableOf]

/-- A command that prints its words and returns `code`. -/
def wordsSample (name : Bytes) (code : Int) : ShellAdd Unit :=
  ⟨some name, none, some fun words s => (⟨words.map .write, code⟩, s)⟩

/-- Two names of which one begins the other. -/
def nestedSample : List (ShellAdd Unit) :=
  [wordsSample (ascii "log dump") 1, wordsSample (ascii "log") 2]

theorem longest_nested :
    Longest (addCommands 4 nestedSample).2 (commandWords (ascii "log dump  all 3"))
      [ascii "log", ascii "dump"]
      ⟨ascii "log dump", none, fun words s => (⟨words.map .write, 1⟩, s)⟩ := by
  have hwords : commandWords (ascii "log dump  all 3") =
      [ascii "log", ascii "dump", ascii "all", ascii "3"] := by decide +kernel
  rw [hwords]
  refine ⟨by decide, by decide, rfl, ?_⟩
  intro ws hlonger hbegins
  -- Three or four words.
  have hle := hbegins.length_le
  rw [List.prefix_iff_eq_take.mp hbegins]
  obtain hthree | hfour : ws.length = 3 ∨ ws.length = 4 := by
    simp only [List.length_cons, List.length_nil] at hlonger hle
    omega
  · rw [hthree]
    rfl
  · rw [hfour]
    rfl

/-- The longer name runs, with the words behind it. -/
theorem shell_run_longest_nested :
    runLine (addCommands 4 nestedSample).1 (ascii "log dump  all 3") () =
      (⟨[.write (ascii "all"), .write (ascii "3")], 1⟩, ()) := by
  have hrun := (shell_run_longest 4 nestedSample (ascii "log dump  all 3") ()).1 _ _ longest_nested
  rw [hrun.1]
  rfl

end SoulCloud
