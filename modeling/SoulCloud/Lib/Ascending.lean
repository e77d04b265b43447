import Mathlib.Order.Basic

/-!
# Logs that only grow upwards

A value that never decreases is logged by appending: every entry is at most the next. `Ascends`
says so of a list and of the present value, which bounds the entries; `snoc` is the rule for a new
entry, `mono` the one for a value that has moved on without one.
-/

universe u

/-- No entry is above a later one, or above `top`. -/
structure Ascends {α : Type u} [Preorder α] (log : List α) (top : α) : Prop where
  sorted : log.Pairwise (· ≤ ·)
  le : ∀ x ∈ log, x ≤ top

namespace Ascends

variable {α : Type u} [Preorder α] {log : List α} {top x : α}

theorem nil (top : α) : Ascends [] top := ⟨.nil, nofun⟩

theorem mono (h : Ascends log top) (hle : top ≤ x) : Ascends log x :=
  ⟨h.sorted, fun y hy => (h.le y hy).trans hle⟩

theorem snoc (h : Ascends log top) (hle : top ≤ x) : Ascends (log ++ [x]) x := by
  have hbelow := (h.mono hle).le
  constructor
  · refine List.pairwise_append.mpr ⟨h.sorted, List.pairwise_singleton _ _, ?_⟩
    intro y hy z hz
    rw [List.mem_singleton.mp hz]
    exact hbelow y hy
  · intro y hy
    rcases List.mem_append.mp hy with hy | hy
    · exact hbelow y hy
    · exact (List.mem_singleton.mp hy).le

/-- A value above all entries is not among them. -/
theorem count_of_lt [DecidableEq α] (h : Ascends log top) (hlt : top < x) : log.count x = 0 :=
  List.count_eq_zero.mpr fun hmem => lt_irrefl x ((h.le x hmem).trans_lt hlt)

end Ascends
