import Mathlib.Data.List.Basic

/-!
# Labelled transition systems with a partial step function

Every concurrent component of the development is a labelled transition system:
a state holds the shared data and one program counter per task, a label names
the task that moves together with everything the outside world decides in that
move, and `step s a = none` says that `a` is not enabled in `s`.

- `Lts.run`: execute a schedule (a list of labels); it is a plain recursion, so
  concrete schedules evaluate.
- `Lts.ReachBy g`: the states reached by schedules whose every step meets the
  condition `g`; `Lts.Reach` is the unconditional case. `ReachBy.invariant` is
  the induction over runs, packaged once.
- `ReachBy.map`: a projection that sends every step to a step (or to no step)
  of another system carries its reachable states over.
- `length_le_of_variant`, `exists_run_of_variant`: what a variant says of the runs.
- `reaches_of_variant`, `exists_run_of_enabled`: a goal that runs reach, and runs of any length.
- `Lts.withHist`: history variables. They observe the run and never influence
  it: a step of the extended system is a step of the original one (`withHist_step`,
  `reach_fst`).
-/

universe u v w

/-- A labelled transition system: an initial state and a partial step function. -/
structure Lts (σ : Type u) (α : Type v) where
  init : σ
  step : σ → α → Option σ

namespace Lts

variable {σ τ : Type u} {α β : Type v} {η : Type w}

/-- Execute a schedule from a given state. -/
def runFrom (S : Lts σ α) : σ → List α → Option σ
  | s, [] => some s
  | s, a :: as => (S.step s a).bind fun s' => S.runFrom s' as

/-- Execute a schedule from the initial state. -/
def run (S : Lts σ α) (as : List α) : Option σ := S.runFrom S.init as

/-- States reached by runs whose every step, taken in `s` with label `a`, meets `g s a`. -/
inductive ReachBy (S : Lts σ α) (g : σ → α → Prop) : σ → Prop where
  | init : ReachBy S g S.init
  | step {s s' : σ} {a : α} :
      ReachBy S g s → g s a → S.step s a = some s' → ReachBy S g s'

/-- States reached by any run. -/
abbrev Reach (S : Lts σ α) : σ → Prop := S.ReachBy fun _ _ => True

namespace ReachBy

variable {S : Lts σ α} {g : σ → α → Prop}

/-- **The invariant rule**: what holds initially and is kept by every admitted
step out of a reachable state holds in every reachable state. -/
theorem invariant {I : σ → Prop} (hinit : I S.init)
    (hstep : ∀ {s a s'}, S.ReachBy g s → I s → g s a → S.step s a = some s' → I s')
    {s : σ} (h : S.ReachBy g s) : I s := by
  induction h with
  | init => exact hinit
  | step hs hg hst ih => exact hstep hs ih hg hst

/-- A weaker step condition admits more runs. -/
theorem mono {g' : σ → α → Prop} (hg : ∀ s a, g s a → g' s a) {s : σ}
    (h : S.ReachBy g s) : S.ReachBy g' s := by
  induction h with
  | init => exact .init
  | step _ hga hst ih => exact .step ih (hg _ _ hga) hst

theorem reach {s : σ} (h : S.ReachBy g s) : S.Reach s :=
  h.mono fun _ _ _ => trivial

/-- **The projection rule**: if `f` sends every admitted step to an admitted
step of `T`, or leaves the projected state alone, it sends reachable states to
reachable states. -/
theorem map {T : Lts τ β} {g' : τ → β → Prop} {f : σ → τ} (hinit : f S.init = T.init)
    (hstep : ∀ {s a s'}, S.ReachBy g s → T.ReachBy g' (f s) → g s a → S.step s a = some s' →
      f s' = f s ∨ ∃ b, g' (f s) b ∧ T.step (f s) b = some (f s'))
    {s : σ} (h : S.ReachBy g s) : T.ReachBy g' (f s) := by
  induction h with
  | init => rw [hinit]; exact .init
  | step hs hga hst ih =>
    rcases hstep hs ih hga hst with heq | ⟨b, hb, hstb⟩
    · rw [heq]; exact ih
    · exact .step ih hb hstb

end ReachBy

/-! ## Executing schedules -/

/-- Execute a schedule, stopping at the first step that does not meet `g`. -/
def runBy (S : Lts σ α) (g : σ → α → Prop) [∀ s a, Decidable (g s a)] :
    σ → List α → Option σ
  | s, [] => some s
  | s, a :: as =>
    if g s a then (S.step s a).bind fun s' => S.runBy g s' as else none

theorem reachBy_of_runBy {S : Lts σ α} {g : σ → α → Prop} [∀ s a, Decidable (g s a)] :
    ∀ {s s' : σ} {as : List α}, S.ReachBy g s → S.runBy g s as = some s' → S.ReachBy g s'
  | _, _, [], hs, h => by
    cases h
    exact hs
  | s, s', a :: as, hs, h => by
    simp only [runBy] at h
    split at h
    · rename_i hga
      obtain ⟨t, hst, hrun⟩ := Option.bind_eq_some_iff.mp h
      exact reachBy_of_runBy (.step hs hga hst) hrun
    · cases h

theorem reach_of_runFrom {S : Lts σ α} :
    ∀ {s s' : σ} {as : List α}, S.Reach s → S.runFrom s as = some s' → S.Reach s'
  | _, _, [], hs, h => by
    cases h
    exact hs
  | s, s', a :: as, hs, h => by
    obtain ⟨t, hst, hrun⟩ := Option.bind_eq_some_iff.mp h
    exact reach_of_runFrom (.step hs trivial hst) hrun

theorem reach_of_run {S : Lts σ α} {s : σ} {as : List α} (h : S.run as = some s) :
    S.Reach s :=
  reach_of_runFrom .init h

/-- A schedule whose final state passes a check leads to a reachable state that
passes it. The check is evaluated, so concrete schedules are discharged by
`decide`. -/
theorem exists_reach_of_run {S : Lts σ α} {p : σ → Bool} {as : List α}
    (h : (S.run as).map p = some true) : ∃ s, S.Reach s ∧ p s = true := by
  obtain ⟨s, hs, hp⟩ := Option.map_eq_some_iff.mp h
  exact ⟨s, reach_of_run hs, hp⟩

/-- The same for runs whose every step meets a condition. -/
theorem exists_reachBy_of_runBy {S : Lts σ α} {g : σ → α → Prop} [∀ s a, Decidable (g s a)]
    {p : σ → Bool} {as : List α} (h : (S.runBy g S.init as).map p = some true) :
    ∃ s, S.ReachBy g s ∧ p s = true := by
  obtain ⟨s, hs, hp⟩ := Option.map_eq_some_iff.mp h
  exact ⟨s, reachBy_of_runBy .init hs, hp⟩

/-! ## Variants -/

/-- **The variant rule**: if every admitted step out of a state with `I` keeps `I` and makes `μ`
smaller, a run is no longer than `μ` allows. -/
theorem length_le_of_variant {S : Lts σ α} {g : σ → α → Prop} [∀ s a, Decidable (g s a)]
    {I : σ → Prop} {μ : σ → Nat}
    (hstep : ∀ {s a s'}, I s → g s a → S.step s a = some s' → I s' ∧ μ s' < μ s) :
    ∀ {s s' : σ} {as : List α}, I s → S.runBy g s as = some s' → I s' ∧ as.length + μ s' ≤ μ s
  | s, s', [], hI, h => by
    cases h
    exact ⟨hI, Nat.le_of_eq (Nat.zero_add _)⟩
  | s, s', a :: as, hI, h => by
    simp only [runBy] at h
    split at h
    · rename_i hga
      obtain ⟨t, hst, hrun⟩ := Option.bind_eq_some_iff.mp h
      obtain ⟨hIt, hlt⟩ := hstep hI hga hst
      obtain ⟨hI', hlen⟩ := length_le_of_variant hstep hIt hrun
      refine ⟨hI', ?_⟩
      rw [List.length_cons]
      omega
    · cases h

/-- Then some run goes on until no admitted step is left. -/
theorem exists_run_of_variant {S : Lts σ α} {g : σ → α → Prop} [∀ s a, Decidable (g s a)]
    {I : σ → Prop} {μ : σ → Nat}
    (hstep : ∀ {s a s'}, I s → g s a → S.step s a = some s' → I s' ∧ μ s' < μ s) {s : σ}
    (hI : I s) : ∃ as s', S.runBy g s as = some s' ∧ ∀ a, g s' a → S.step s' a = none := by
  generalize hn : μ s = n
  induction n using Nat.strongRecOn generalizing s with
  | ind n ih =>
    by_cases hstuck : ∀ a, g s a → S.step s a = none
    · exact ⟨[], s, rfl, hstuck⟩
    · obtain ⟨a, ha⟩ := Classical.not_forall.mp hstuck
      obtain ⟨hga, hne⟩ := Classical.not_imp.mp ha
      obtain ⟨t, hst⟩ := Option.ne_none_iff_exists'.mp hne
      obtain ⟨hIt, hlt⟩ := hstep hI hga hst
      obtain ⟨as, s', hrun, hlast⟩ := ih (μ t) (hn ▸ hlt) hIt rfl
      refine ⟨a :: as, s', ?_, hlast⟩
      simp only [runBy]
      rw [if_pos hga, hst]
      exact hrun

/-! ## Progress -/

section Progress

variable {S : Lts σ α} {g : σ → α → Prop} [∀ s a, Decidable (g s a)] {I Goal : σ → Prop}
  {p : α → Bool} {μ : σ → Nat}

/-- What every admitted step keeps, a run of such steps keeps. -/
theorem runBy_keeps (hstep : ∀ {s a s'}, I s → g s a → S.step s a = some s' → I s') :
    ∀ {s s' : σ} {as : List α}, I s → S.runBy g s as = some s' → I s'
  | s, s', [], hI, h => by
    cases h
    exact hI
  | s, s', a :: as, hI, h => by
    simp only [runBy] at h
    split at h
    · rename_i hga
      obtain ⟨t, hst, hrun⟩ := Option.bind_eq_some_iff.mp h
      exact runBy_keeps hstep (hstep hI hga hst) hrun
    · cases h

/-- **The progress rule**: if an admitted step reaches the goal, or is taken before it and makes
`μ` no larger, and smaller if the step counts, then a run in which more steps count than `μ`
allows has reached the goal. -/
theorem reaches_of_variant (hkeep : ∀ {s a s'}, I s → g s a → S.step s a = some s' → I s')
    (hstep : ∀ {s a s'}, I s → g s a → S.step s a = some s' →
      Goal s' ∨ ¬ Goal s ∧ μ s' + (if p a then 1 else 0) ≤ μ s) :
    ∀ {s s' : σ} {as : List α}, I s → S.runBy g s as = some s' →
      Goal s' ∨ ¬ Goal s ∧ as.countP p + μ s' ≤ μ s
  | s, s', [], hI, h => by
    cases h
    by_cases hgoal : Goal s
    · exact .inl hgoal
    · exact .inr ⟨hgoal, Nat.le_of_eq (Nat.zero_add _)⟩
  | s, s', a :: as, hI, h => by
    simp only [runBy] at h
    split at h
    · rename_i hga
      obtain ⟨t, hst, hrun⟩ := Option.bind_eq_some_iff.mp h
      rcases reaches_of_variant hkeep hstep (hkeep hI hga hst) hrun with hgoal | ⟨hnot, hle⟩
      · exact .inl hgoal
      · rcases hstep hI hga hst with hgoal | ⟨hbefore, hless⟩
        · exact absurd hgoal hnot
        · refine .inr ⟨hbefore, ?_⟩
          rw [List.countP_cons]
          omega
    · cases h

/-- Where a step that counts is always possible, there are runs with any number of them. -/
theorem exists_run_of_enabled
    (henabled : ∀ {s}, I s → ∃ a s', g s a ∧ p a = true ∧ S.step s a = some s' ∧ I s') (n : Nat) :
    ∀ {s : σ}, I s → ∃ as s', S.runBy g s as = some s' ∧ as.countP p = n := by
  induction n with
  | zero => exact fun _ => ⟨[], _, rfl, rfl⟩
  | succ n ih =>
    intro s hI
    obtain ⟨a, t, hga, hp, hst, hIt⟩ := henabled hI
    obtain ⟨as, s', hrun, hcount⟩ := ih hIt
    refine ⟨a :: as, s', ?_, ?_⟩
    · simp only [runBy]
      rw [if_pos hga, hst]
      exact hrun
    · rw [List.countP_cons, if_pos hp, hcount]

end Progress

/-! ## History variables -/

/-- Extend a system with a history variable: `upd` sees the state before the
step, the label, the state after it and the history so far. -/
def withHist (S : Lts σ α) (h₀ : η) (upd : σ → α → σ → η → η) : Lts (σ × η) α where
  init := (S.init, h₀)
  step p a := (S.step p.1 a).map fun s' => (s', upd p.1 a s' p.2)

section Hist

variable {S : Lts σ α} {h₀ : η} {upd : σ → α → σ → η → η}

/-- Step inversion for a system with history. -/
theorem withHist_step {p p' : σ × η} {a : α}
    (h : (S.withHist h₀ upd).step p a = some p') :
    S.step p.1 a = some p'.1 ∧ p'.2 = upd p.1 a p'.1 p.2 := by
  obtain ⟨s', hs', rfl⟩ := Option.map_eq_some_iff.mp h
  exact ⟨hs', rfl⟩

/-- Forgetting the history gives a run of the original system. -/
theorem reach_fst {g : σ × η → α → Prop} {p : σ × η}
    (h : (S.withHist h₀ upd).ReachBy g p) : S.Reach p.1 := by
  induction h with
  | init => exact .init
  | step _ _ hst ih => exact .step ih trivial (withHist_step hst).1

end Hist

end Lts
