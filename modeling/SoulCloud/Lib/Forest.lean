import Mathlib.Data.List.Basic
import Mathlib.Tactic.Cases
import Mathlib.Tactic.SplitIfs

/-!
# Ordered forests and their pre-order listing

A forest is a sequence of trees, each with a label and a forest of children. Listed in
pre-order, with the number of children beside each label, it is determined by the list:
a reader that walks the list and counts the subtrees still to come finds the end of every
subtree.

- `Forest`: built by adding a last tree, as a parser builds it.
- `Forest.preorder`, `Forest.width`, `Forest.count`: the listing and its measures.
- `span`: the walk, with `span_preorder` for what it computes.
- `Forest.at?`: the node at an index of the listing, with `preorder_of_at?` for where its
  subtree lies, and `at?_of_trees`, `at?_child` for the nodes below one.
- `Forest.trees`: the trees from the first to the last.
-/

universe u

/-- An ordered forest with labels in `α`. -/
inductive Forest (α : Type u) where
  | nil
  /-- The forest `init` with one more tree at its end. -/
  | snoc (init : Forest α) (label : α) (children : Forest α)
  deriving DecidableEq

namespace Forest

variable {α : Type u}

/-- The number of trees. -/
def width : Forest α → Nat
  | nil => 0
  | snoc init _ _ => init.width + 1

/-- The number of nodes. -/
def count : Forest α → Nat
  | nil => 0
  | snoc init _ children => init.count + 1 + children.count

/-- Every label with the number of its children, in pre-order. -/
def preorder : Forest α → List (α × Nat)
  | nil => []
  | snoc init a children => init.preorder ++ (a, children.width) :: children.preorder

/-- Every label, in pre-order. -/
def labels (f : Forest α) : List α := f.preorder.map Prod.fst

/-- The trees, from the first to the last. -/
def trees : Forest α → List (α × Forest α)
  | nil => []
  | snoc init a children => init.trees ++ [(a, children)]

@[simp] theorem length_preorder (f : Forest α) : f.preorder.length = f.count := by
  induction f with
  | nil => rfl
  | snoc init a children ihInit ihChildren =>
    simp only [preorder, count, List.length_append, List.length_cons, ihInit, ihChildren]
    omega

@[simp] theorem labels_nil : (nil : Forest α).labels = [] := rfl

@[simp] theorem labels_snoc (init : Forest α) (a : α) (children : Forest α) :
    (snoc init a children).labels = init.labels ++ a :: children.labels := by
  simp [labels, preorder]

@[simp] theorem length_trees (f : Forest α) : f.trees.length = f.width := by
  induction f with
  | nil => rfl
  | snoc init a children ih => simp [trees, width, ih]

/-- The listing, tree by tree. -/
theorem preorder_eq_flatMap_trees (f : Forest α) :
    f.preorder = f.trees.flatMap fun t => (t.1, t.2.width) :: t.2.preorder := by
  induction f with
  | nil => rfl
  | snoc init a children ih => simp [preorder, trees, ← ih]

theorem width_le_count (f : Forest α) : f.width ≤ f.count := by
  induction f with
  | nil => exact Nat.le_refl _
  | snoc init a children ih =>
    simp only [width, count]
    omega

/-! ## Walking over a listing -/

/-- How many entries complete `pending` subtrees, where `sizes` are the numbers of children
from the present entry on. -/
def span : List Nat → Nat → Nat
  | _, 0 => 0
  | [], _ + 1 => 0
  | size :: rest, pending + 1 => span rest (pending + size) + 1

@[simp] theorem span_zero (sizes : List Nat) : span sizes 0 = 0 := by
  cases sizes <;> rfl

/-- Walking over a whole forest takes as many entries as it has nodes. -/
theorem span_preorder (f : Forest α) (rest : List Nat) (pending : Nat) :
    span (f.preorder.map Prod.snd ++ rest) (f.width + pending) = f.count + span rest pending := by
  induction f generalizing rest pending with
  | nil => simp [preorder, width, count]
  | snoc init a children ihInit ihChildren =>
    have hsplit : (snoc init a children).preorder.map Prod.snd ++ rest =
        init.preorder.map Prod.snd ++
          (children.width :: (children.preorder.map Prod.snd ++ rest)) := by
      simp [preorder]
    have hwidth : (snoc init a children).width + pending = init.width + (pending + 1) := by
      simp only [width]
      omega
    rw [hsplit, hwidth, ihInit]
    show init.count + (span _ (pending + children.width) + 1) = _
    rw [Nat.add_comm pending, ihChildren]
    simp only [count]
    omega

/-- Walking over one tree. -/
theorem span_tree (children : Forest α) (rest : List Nat) :
    span (children.width :: (children.preorder.map Prod.snd ++ rest)) 1 = children.count + 1 := by
  have h := span_preorder children rest 0
  rw [Nat.add_zero, span_zero, Nat.add_zero] at h
  show span (children.preorder.map Prod.snd ++ rest) (0 + children.width) + 1 = _
  rw [Nat.zero_add, h]

/-! ## Nodes by index -/

/-- The label and the children of the node at index `i` of the listing. -/
def at? : Forest α → Nat → Option (α × Forest α)
  | nil, _ => none
  | snoc init a children, i =>
    if i < init.count then init.at? i
    else if i = init.count then some (a, children)
    else children.at? (i - init.count - 1)

/-- Every index of the listing has a node. -/
theorem at?_of_lt {f : Forest α} {i : Nat} (h : i < f.count) : ∃ node, f.at? i = some node := by
  induction f generalizing i with
  | nil => cases h
  | snoc init a children ihInit ihChildren =>
    unfold at?
    by_cases hi : i < init.count
    · rw [if_pos hi]
      exact ihInit hi
    · rw [if_neg hi]
      by_cases heq : i = init.count
      · rw [if_pos heq]
        exact ⟨_, rfl⟩
      · rw [if_neg heq]
        refine ihChildren ?_
        simp only [count] at h
        omega

/-- A node's subtree is one stretch of the listing: the node itself and then its children's
listing. -/
theorem preorder_of_at? {f : Forest α} {i : Nat} {a : α} {children : Forest α}
    (h : f.at? i = some (a, children)) :
    ∃ before after, before.length = i ∧
      f.preorder = before ++ (a, children.width) :: (children.preorder ++ after) := by
  induction f generalizing i with
  | nil => cases h
  | snoc init b kids ihInit ihKids =>
    unfold at? at h
    split_ifs at h with hlt heq
    · obtain ⟨before, after, hlen, hpre⟩ := ihInit h
      refine ⟨before, after ++ (b, kids.width) :: kids.preorder, hlen, ?_⟩
      simp [preorder, hpre]
    · cases h
      exact ⟨init.preorder, [], by rw [length_preorder, heq], by simp [preorder]⟩
    · obtain ⟨before, after, hlen, hpre⟩ := ihKids h
      refine ⟨init.preorder ++ (b, kids.width) :: before, after, ?_, ?_⟩
      · simp only [List.length_append, List.length_cons, length_preorder, hlen]
        omega
      · simp [preorder, hpre]

theorem lt_of_at? {f : Forest α} {i : Nat} {node : α × Forest α} (h : f.at? i = some node) :
    i < f.count := by
  obtain ⟨before, after, rfl, hf⟩ := preorder_of_at? h
  rw [← length_preorder, hf, List.length_append, List.length_cons]
  omega

/-- A tree of a forest comes behind the listings of those before it. -/
theorem at?_of_trees {f : Forest α} {before after : List (α × Forest α)} {tree : α × Forest α}
    (h : f.trees = before ++ tree :: after) :
    f.at? (before.flatMap fun t => (t.1, t.2.width) :: t.2.preorder).length = some tree := by
  induction f generalizing after with
  | nil => exact absurd h.symm (List.append_ne_nil_of_right_ne_nil _ (List.cons_ne_nil _ _))
  | snoc init a children ih =>
    rw [trees] at h
    rw [at?]
    rcases List.eq_nil_or_concat after with rfl | ⟨rest, last, rfl⟩
    · obtain ⟨rfl, hlast⟩ := List.append_inj' h rfl
      rw [← preorder_eq_flatMap_trees, length_preorder, if_neg (Nat.lt_irrefl _), if_pos rfl]
      exact congrArg some (List.cons.inj hlast).1
    · have hinit : init.trees = before ++ tree :: rest := by
        rw [List.concat_eq_append, ← List.cons_append, ← List.append_assoc] at h
        exact (List.append_inj' h rfl).1
      have hat := ih hinit
      rw [if_pos (lt_of_at? hat)]
      exact hat

/-- A node's children are listed right behind it. -/
theorem at?_child {f : Forest α} {i j : Nat} {a : α} {children : Forest α} {node : α × Forest α}
    (h : f.at? i = some (a, children)) (hchild : children.at? j = some node) :
    f.at? (i + 1 + j) = some node := by
  induction f generalizing i with
  | nil => cases h
  | snoc init b kids ihInit ihKids =>
    rw [at?] at h ⊢
    split_ifs at h with hlt heq
    · have hat := ihInit h
      rw [if_pos (lt_of_at? hat)]
      exact hat
    · cases h
      rw [if_neg (by omega), if_neg (by omega), show i + 1 + j - init.count - 1 = j by omega]
      exact hchild
    · have hat := ihKids h
      rw [if_neg (by omega), if_neg (by omega),
        show i + 1 + j - init.count - 1 = i - init.count - 1 + 1 + j by omega]
      exact hat

end Forest
