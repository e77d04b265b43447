import Mathlib.Tactic.Tauto
import SoulCloud.Lib.Forest

/-!
# A forest under construction

A parser that has read part of a text has built a forest whose last nodes may still get
children. A `Zipper` is such a forest with one node on its rightmost path in focus: new
nodes become the focus's last children. The operations are those a parser needs, and each
has a lemma for what it does to the forest and to its pre-order listing, in which it only
appends an entry or changes the last one of the `spine`.

- `Zipper.leaf`, `Zipper.push`: a new node, in focus or not.
- `Zipper.last`: the focus moves to the last node of the whole forest.
- `Zipper.rise`: the focus moves up to the nearest node with a property.
- `Zipper.Below`: what holds for all nodes that are off the path to the focus.
-/

universe u

/-- A forest with a focus on its rightmost path, or above all of it. `path` leads from the
focus to the root: each entry is a node on the path and the trees to its left. `current`
are the children of the focus so far. -/
structure Zipper (α : Type u) where
  path : List (Forest α × α)
  current : Forest α

namespace Zipper

variable {α : Type u}

open Forest

def empty : Zipper α := ⟨[], nil⟩

/-- The forest whose last tree leads down `path` to the trees `f`. -/
def plug : List (Forest α × α) → Forest α → Forest α
  | [], f => f
  | (left, a) :: path, f => plug path (snoc left a f)

/-- The whole forest. -/
def forest (z : Zipper α) : Forest α := plug z.path z.current

/-- The listing up to the focus, which has `n` children. -/
def spine : List (Forest α × α) → Nat → List (α × Nat)
  | [], _ => []
  | (left, a) :: path, n => spine path (left.width + 1) ++ left.preorder ++ [(a, n)]

/-- The index of the focus in the listing. -/
def focus (z : Zipper α) : Option Nat :=
  match z.path with
  | [] => none
  | (left, _) :: path => some ((spine path 0).length + left.count)

/-- The label in focus. -/
def label (z : Zipper α) : Option α := z.path.head?.map Prod.snd

theorem length_spine (path : List (Forest α × α)) (m n : Nat) :
    (spine path m).length = (spine path n).length := by
  cases path <;> simp [spine]

theorem preorder_plug (path : List (Forest α × α)) (f : Forest α) :
    (plug path f).preorder = spine path f.width ++ f.preorder := by
  induction path generalizing f with
  | nil => rfl
  | cons node path ih =>
    obtain ⟨left, a⟩ := node
    show (plug path (snoc left a f)).preorder = _
    rw [ih]
    simp [spine, preorder, width]

/-- **The listing of the whole forest**: up to the focus, then the nodes below it. -/
theorem preorder_forest (z : Zipper α) :
    z.forest.preorder = spine z.path z.current.width ++ z.current.preorder :=
  preorder_plug z.path z.current

theorem count_forest (z : Zipper α) :
    z.forest.count = (spine z.path 0).length + z.current.count := by
  rw [← length_preorder, preorder_forest, List.length_append, length_preorder,
    length_spine z.path _ 0]

/-! ## New nodes -/

/-- A new last child of the focus. -/
def leaf (z : Zipper α) (a : α) : Zipper α := { z with current := snoc z.current a nil }

/-- A whole tree as the last child of the focus. -/
def graft (z : Zipper α) (a : α) (children : Forest α) : Zipper α :=
  { z with current := snoc z.current a children }

/-- A new last child of the focus, which becomes the focus. -/
def push (z : Zipper α) (a : α) : Zipper α := ⟨(z.current, a) :: z.path, nil⟩

theorem forest_push (z : Zipper α) (a : α) : (z.push a).forest = (z.leaf a).forest := rfl

theorem preorder_leaf (z : Zipper α) (a : α) :
    (z.leaf a).forest.preorder =
      spine z.path (z.current.width + 1) ++ z.current.preorder ++ [(a, 0)] := by
  rw [preorder_forest]
  simp [leaf, preorder, width]

theorem count_leaf (z : Zipper α) (a : α) : (z.leaf a).forest.count = z.forest.count + 1 := by
  simp [count_forest, leaf, count]
  omega

theorem focus_push (z : Zipper α) (a : α) : (z.push a).focus = some z.forest.count := by
  rw [count_forest]
  rfl

/-! ## Moving the focus -/

/-- The focus on the last node of `f`, under `path`. -/
def descend (path : List (Forest α × α)) : Forest α → List (Forest α × α)
  | nil => path
  | snoc left a children => descend ((left, a) :: path) children

theorem plug_descend (path : List (Forest α × α)) (f : Forest α) :
    plug (descend path f) nil = plug path f := by
  induction f generalizing path with
  | nil => rfl
  | snoc left a children _ ih => exact ih _

/-- The focus on the last node of the whole forest. -/
def last (z : Zipper α) : Zipper α := ⟨descend z.path z.current, nil⟩

theorem forest_last (z : Zipper α) : z.last.forest = z.forest := plug_descend z.path z.current

/-- The last node of the listing is the last node of the forest. -/
theorem focus_last (z : Zipper α) :
    z.last.focus = if z.forest.count = 0 then none else some (z.forest.count - 1) := by
  have hcount := z.last.count_forest
  rw [forest_last] at hcount
  rw [hcount]
  unfold last focus
  dsimp only
  cases descend z.path z.current with
  | nil => simp [spine, count]
  | cons node path => simp [spine, count, length_spine path _ 0]

/-- The nodes passed on the way down are nodes of `f`. -/
theorem mem_descend {path : List (Forest α × α)} {f : Forest α} {node : Forest α × α}
    (h : node ∈ descend path f) : node ∈ path ∨ node.2 ∈ f.labels := by
  induction f generalizing path with
  | nil => exact .inl h
  | snoc left a children _ ih =>
    rcases ih h with h | h
    · rcases List.mem_cons.mp h with rfl | h
      · exact .inr (by simp)
      · exact .inl h
    · exact .inr (by simp [h])

/-- The focus on the nearest node at or above the present one that has the property. -/
def riseTo (p : α → Bool) : List (Forest α × α) → Forest α → Zipper α
  | [], f => ⟨[], f⟩
  | (left, a) :: path, f =>
    if p a then ⟨(left, a) :: path, f⟩ else riseTo p path (snoc left a f)

/-- The focus on the nearest node at or above the present one that has the property. -/
def rise (z : Zipper α) (p : α → Bool) : Zipper α := riseTo p z.path z.current

theorem forest_riseTo (p : α → Bool) (path : List (Forest α × α)) (f : Forest α) :
    (riseTo p path f).forest = plug path f := by
  induction path generalizing f with
  | nil => rfl
  | cons node path ih =>
    obtain ⟨left, a⟩ := node
    unfold riseTo
    split_ifs
    · rfl
    · exact ih _

theorem forest_rise (z : Zipper α) (p : α → Bool) : (z.rise p).forest = z.forest :=
  forest_riseTo p z.path z.current

theorem rise_of_pos {p : α → Bool} {left : Forest α} {a : α} (ha : p a = true)
    (path : List (Forest α × α)) (f : Forest α) :
    rise ⟨(left, a) :: path, f⟩ p = ⟨(left, a) :: path, f⟩ :=
  if_pos ha

theorem rise_of_neg {p : α → Bool} {left : Forest α} {a : α} (ha : p a = false)
    (path : List (Forest α × α)) (f : Forest α) :
    rise ⟨(left, a) :: path, f⟩ p = rise ⟨path, snoc left a f⟩ p :=
  if_neg (by rw [ha]; exact Bool.false_ne_true)

/-! ## The nodes off the path -/

/-- Every node that is neither in focus nor above the focus has the property. -/
structure Below (q : α → Prop) (z : Zipper α) : Prop where
  current : ∀ a ∈ z.current.labels, q a
  left : ∀ node ∈ z.path, ∀ a ∈ node.1.labels, q a

variable {q : α → Prop} {z : Zipper α}

theorem below_empty : Below q empty := ⟨nofun, nofun⟩

theorem Below.leaf (h : Below q z) {a : α} (ha : q a) : Below q (z.leaf a) := by
  refine ⟨?_, h.left⟩
  intro b hb
  rcases List.mem_append.mp ((labels_snoc _ _ _) ▸ hb) with hb | hb
  · exact h.current b hb
  · rw [List.mem_singleton.mp hb]
    exact ha

theorem Below.push (h : Below q z) (a : α) : Below q (z.push a) := by
  refine ⟨nofun, ?_⟩
  intro node hnode
  rcases List.mem_cons.mp hnode with rfl | hnode
  · exact h.current
  · exact h.left node hnode

theorem Below.last (h : Below q z) : Below q z.last := by
  refine ⟨nofun, ?_⟩
  obtain ⟨path, f⟩ := z
  show ∀ node ∈ descend path f, ∀ a ∈ node.1.labels, q a
  induction f generalizing path with
  | nil => exact h.left
  | snoc left a children _ ih =>
    refine ih _ ⟨?_, ?_⟩
    · intro b hb
      exact h.current b (by simp [hb])
    · intro node hnode
      rcases List.mem_cons.mp hnode with rfl | hnode
      · intro b hb
        exact h.current b (by simp [hb])
      · exact h.left node hnode

theorem mem_labels_plug {path : List (Forest α × α)} {f : Forest α} {a : α} :
    a ∈ (plug path f).labels ↔
      a ∈ f.labels ∨ ∃ node ∈ path, a = node.2 ∨ a ∈ node.1.labels := by
  induction path generalizing f with
  | nil => simp [plug]
  | cons node path ih =>
    obtain ⟨left, b⟩ := node
    show a ∈ (plug path (snoc left b f)).labels ↔ _
    rw [ih]
    simp only [labels_snoc, List.mem_append, List.mem_cons, exists_eq_or_imp]
    generalize (∃ node ∈ path, a = node.2 ∨ a ∈ node.1.labels) = upper
    tauto

/-- A node of the forest is on the path, or has the property of those off it. -/
theorem Below.mem (h : Below q z) {a : α} (ha : a ∈ z.forest.labels) :
    q a ∨ ∃ node ∈ z.path, a = node.2 := by
  rcases mem_labels_plug.mp ha with ha | ⟨node, hnode, ha | ha⟩
  · exact .inl (h.current a ha)
  · exact .inr ⟨node, hnode, ha⟩
  · exact .inl (h.left node hnode a ha)

/-- One step up: the node left joins those below. -/
theorem Below.up {left : Forest α} {a : α} {path : List (Forest α × α)} {f : Forest α}
    (h : Below q ⟨(left, a) :: path, f⟩) (ha : q a) : Below q ⟨path, snoc left a f⟩ := by
  refine ⟨?_, fun node hnode => h.left node (List.mem_cons_of_mem _ hnode)⟩
  intro b hb
  rw [labels_snoc, List.mem_append, List.mem_cons] at hb
  rcases hb with hb | rfl | hb
  · exact h.left (left, a) List.mem_cons_self b hb
  · exact ha
  · exact h.current b hb

/-- A rise past nodes that have the property. -/
theorem Below.rise {p : α → Bool} (h : Below q z) (hpq : ∀ a, p a = false → q a) :
    Below q (z.rise p) := by
  obtain ⟨path, f⟩ := z
  induction path generalizing f with
  | nil => exact h
  | cons node path ih =>
    obtain ⟨left, a⟩ := node
    cases ha : p a with
    | true =>
      rw [rise_of_pos ha]
      exact h
    | false =>
      rw [rise_of_neg ha]
      exact ih _ (h.up (hpq a ha))

/-- The focus may be relabelled. -/
theorem Below.relabel {left : Forest α} {a : α} {path : List (Forest α × α)} {f : Forest α}
    (h : Below q ⟨(left, a) :: path, f⟩) (b : α) : Below q ⟨(left, b) :: path, f⟩ := by
  refine ⟨h.current, ?_⟩
  intro node hnode
  rcases List.mem_cons.mp hnode with rfl | hnode
  · exact h.left (left, a) List.mem_cons_self
  · exact h.left node (List.mem_cons_of_mem _ hnode)

end Zipper
