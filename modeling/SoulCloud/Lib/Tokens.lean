import SoulCloud.Lib.Lts
import Mathlib.Algebra.Order.BigOperators.Group.Finset
import Mathlib.Data.Fintype.Basic

/-!
# Tokens circulating between places

The abstract picture of a resource that is handed around: finitely many places,
each holding a queue of tokens, and one kind of step, which takes the oldest
token of a place and appends it at another. However the steps are ordered, no
token is lost or duplicated (`copies_reach`), so with one copy of each token at
the start every token is always in exactly one place, and a place that does not
hold all the tokens has room for one more (`length_lt`).
-/

universe u v

open Finset

namespace Tokens

variable {π : Type u} {τ : Type v} [DecidableEq π] [Fintype π]

/-- Take the oldest token of `p` and append it at `q`. -/
def move (s : π → List τ) (p q : π) : Option (π → List τ) :=
  match s p with
  | [] => none
  | x :: xs =>
    let s' := Function.update s p xs
    some (Function.update s' q (s' q ++ [x]))

/-- Tokens circulating from an initial distribution; a label names the two places. -/
def circulation (init : π → List τ) : Lts (π → List τ) (π × π) :=
  ⟨init, fun s e => move s e.1 e.2⟩

/-- The number of tokens of all places that pass `f`. -/
def tally (f : List τ → Nat) (s : π → List τ) : Nat := ∑ p, f (s p)

/-- Changing one place changes a tally by the difference at that place. -/
theorem tally_update (f : List τ → Nat) (s : π → List τ) (p : π) (xs : List τ) :
    tally f (Function.update s p xs) + f (s p) = tally f s + f xs := by
  unfold tally
  have hnew := Finset.add_sum_erase univ (fun q => f (Function.update s p xs q)) (mem_univ p)
  have hold := Finset.add_sum_erase univ (fun q => f (s q)) (mem_univ p)
  have hrest : ∑ q ∈ univ.erase p, f (Function.update s p xs q) = ∑ q ∈ univ.erase p, f (s q) := by
    refine Finset.sum_congr rfl ?_
    intro q hq
    rw [Function.update_of_ne (Finset.ne_of_mem_erase hq)]
  simp only [Function.update_self] at hnew
  rw [hrest] at hnew
  omega

/-- A move keeps every additive tally. -/
theorem tally_move {f : List τ → Nat} (hf : ∀ xs ys, f (xs ++ ys) = f xs + f ys)
    {s s' : π → List τ} {p q : π} (h : move s p q = some s') : tally f s' = tally f s := by
  unfold move at h
  split at h
  · cases h
  · rename_i x xs hp
    cases h
    have h₁ := tally_update f s p xs
    have h₂ := tally_update f (Function.update s p xs) q (Function.update s p xs q ++ [x])
    have hhead : f (x :: xs) = f [x] + f xs := hf [x] xs
    rw [hp, hhead] at h₁
    rw [hf] at h₂
    omega

/-- The tally of every reachable distribution is that of the initial one. -/
theorem tally_reach {f : List τ → Nat} (hf : ∀ xs ys, f (xs ++ ys) = f xs + f ys)
    {init s : π → List τ} (h : (circulation init).Reach s) : tally f s = tally f init :=
  h.invariant (I := fun s => tally f s = tally f init) rfl
    fun _ ih _ hst => (tally_move hf hst).trans ih

/-- The number of copies of a token, over all places. -/
def copies [DecidableEq τ] (s : π → List τ) (x : τ) : Nat := tally (List.count x) s

/-- **No token is lost or duplicated.** -/
theorem copies_reach [DecidableEq τ] {init s : π → List τ} (h : (circulation init).Reach s)
    (x : τ) : copies s x = copies init x :=
  tally_reach (fun _ _ => List.count_append) h

/-- The number of tokens in circulation. -/
def total (s : π → List τ) : Nat := tally List.length s

theorem total_reach {init s : π → List τ} (h : (circulation init).Reach s) :
    total s = total init :=
  tally_reach (fun _ _ => List.length_append) h

/-- A place has room for the tokens that are elsewhere. -/
theorem length_lt {s : π → List τ} {p q : π} (hpq : p ≠ q) (hp : s p ≠ []) :
    (s q).length < total s := by
  have hsplit := Finset.add_sum_erase univ (fun r => (s r).length) (mem_univ q)
  have hle : (s p).length ≤ ∑ r ∈ univ.erase q, (s r).length :=
    Finset.single_le_sum (f := fun r => (s r).length) (fun _ _ => Nat.zero_le _)
      (Finset.mem_erase.mpr ⟨hpq, mem_univ p⟩)
  have hpos : 0 < (s p).length := List.length_pos_iff.mpr hp
  unfold total tally
  omega

/-- A token that is somewhere is one of the initial tokens. -/
theorem mem_init_of_mem [DecidableEq τ] {init s : π → List τ} (h : (circulation init).Reach s)
    {p : π} {x : τ} (hx : x ∈ s p) : ∃ q, x ∈ init q := by
  have hpos : 0 < copies s x := by
    have hle : (s p).count x ≤ ∑ r, (s r).count x :=
      Finset.single_le_sum (f := fun r => (s r).count x) (fun _ _ => Nat.zero_le _) (mem_univ p)
    exact Nat.lt_of_lt_of_le (List.count_pos_iff.mpr hx) hle
  rw [copies_reach h x] at hpos
  obtain ⟨q, -, hq⟩ := Finset.exists_ne_zero_of_sum_ne_zero (Nat.pos_iff_ne_zero.mp hpos)
  exact ⟨q, List.count_pos_iff.mp (Nat.pos_of_ne_zero hq)⟩

end Tokens
