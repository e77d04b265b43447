import SoulCloud.Json.WellFormed

/-!
# The language that `parse` accepts

jsmn checks brackets, strings and the spelling of primitives, and little of what stands
between them. `Tolerant` is the pushdown machine of what it does check: it knows no token
and no tree, only which containers are open, what a new node would go below, and the types
of the nodes so far.

- `Tolerant.act`: what each lexeme needs, and what it changes.
- `toTolerant_act`: the machine sees all that the tree of tokens decides on.
- `parse_ok_iff_tolerated`: `parse` accepts what the machine accepts, if the nodes fit.
- `parse_sound_iff`: so it accepts only well-formed texts exactly when the text is
  well-formed, or not tolerated, or too large.
-/

namespace SoulCloud

open Forest Json

/-! ## The machine -/

/-- What a new node would go below: nothing, a container, a string (meant to be a key) that
has a child or not yet, or a primitive (by a stray colon). -/
inductive SuperKind where
  | outside
  | object
  | array
  | key (filled : Bool)
  | primitive
  deriving DecidableEq, Repr

namespace SuperKind

/-- Below a node of this type, with a child or without. -/
def below : JsmnType → Bool → SuperKind
  | .object, _ => object
  | .array, _ => array
  | .string, filled => key filled
  | .primitive, _ => primitive

/-- Below a key or a primitive. -/
def isLeaf : SuperKind → Bool
  | key _ | primitive => true
  | outside | object | array => false

/-- The place after a string or primitive has gone there. -/
def fill : SuperKind → SuperKind
  | key _ => key true
  | place => place

end SuperKind

/-- `stack` are the open containers from the innermost one on, and `types` the nodes so far. -/
structure Tolerant where
  stack : List Container
  place : SuperKind
  types : List JsmnType
  deriving DecidableEq, Repr

namespace Tolerant

def empty : Tolerant := ⟨[], .outside, []⟩

/-- In the innermost open container, or outside. -/
def inner : List Container → SuperKind
  | [] => .outside
  | c :: _ => .below c.type true

/-- Below the last node, whatever it is. -/
def afterLast (types : List JsmnType) : SuperKind :=
  match types.getLast? with
  | none => .outside
  | some type => .below type false

/-- What one lexeme does; `none` when it is refused. -/
def act (s : Tolerant) : Lexeme → Option Tolerant
  | .opening c _ =>
    if s.place = .object then none
    else some ⟨c :: s.stack, .below c.type false, s.types ++ [c.type]⟩
  | .closing c _ =>
    match s.stack with
    | [] => none
    | top :: stack => if top = c then some ⟨stack, inner stack, s.types⟩ else none
  | .string _ _ => some { s with place := s.place.fill, types := s.types ++ [.string] }
  | .primitive _ _ =>
    if s.place = .object ∨ s.place = .key true then none
    else some { s with place := s.place.fill, types := s.types ++ [.primitive] }
  | .colon => some { s with place := afterLast s.types }
  | .comma =>
    if s.place.isLeaf ∧ s.stack ≠ [] then some { s with place := inner s.stack } else some s

def run (s : Tolerant) : List Lexeme → Option Tolerant
  | [] => some s
  | l :: ls => (s.act l).bind fun s => run s ls

end Tolerant

/-- What the machine makes of a text, if its lexemes can be read and none is refused. -/
def tolerant (json : Bytes) : Option Tolerant := (lex json 0 0).bind (Tolerant.run .empty)

/-- The text is tolerated, and has `nodes` nodes: all containers are closed at its end, and
its first node is an object. -/
def Tolerated (json : Bytes) (nodes : Nat) : Prop :=
  ∃ s, tolerant json = some s ∧ s.stack = [] ∧ s.types.head? = some .object ∧
    s.types.length = nodes

/-! ## What the machine sees of a tree -/

namespace TokenTree

def openContainer (n : JsonNode) : Option Container :=
  if n.isOpen then
    match n.type with
    | .object => some .object
    | .array => some .array
    | .string | .primitive => none
  else none

/-- The open containers on the way up. -/
def openings (path : List (Forest JsonNode × JsonNode)) : List Container :=
  path.filterMap fun node => openContainer node.2

def place (z : TokenTree) : SuperKind :=
  match z.label with
  | none => .outside
  | some n => .below n.type (z.current.width != 0)

def types (f : Forest JsonNode) : List JsmnType := f.labels.map (·.type)

/-- What the machine sees of a tree. -/
def toTolerant (z : TokenTree) : Tolerant := ⟨openings z.path, z.place, types z.forest⟩

variable {z z' : TokenTree}

theorem types_leaf (z : TokenTree) (n : JsonNode) :
    types (z.leaf n).forest = types z.forest ++ [n.type] := by
  unfold types labels
  rw [Zipper.preorder_leaf, Zipper.preorder_forest]
  cases z.path with
  | nil => simp [Zipper.spine]
  | cons node path => simp [Zipper.spine]

theorem openContainer_container {n : JsonNode} (h : n.isContainer = true) :
    openContainer n = none ↔ n.isOpen = false := by
  obtain ⟨type, start, stop⟩ := n
  cases type with
  | object | array => simp [openContainer]
  | string | primitive => cases h

theorem type_of_openContainer {n : JsonNode} {c : Container} (h : openContainer n = some c) :
    n.type = c.type ∧ n.isOpen = true := by
  rw [openContainer] at h
  split_ifs at h with hopen
  refine ⟨?_, hopen⟩
  split at h <;> cases h <;> assumption

/-- A rise to an open node passes no open container, and ends at the innermost one. -/
theorem openings_rise (h : Settled z) :
    openings (z.rise JsonNode.isOpen).path = openings z.path ∧
      match openings z.path with
      | [] => (z.rise JsonNode.isOpen).path = []
      | c :: stack => ∃ left n path, (z.rise JsonNode.isOpen).path = (left, n) :: path ∧
          n.isOpen = true ∧ n.type = c.type ∧ openings path = stack := by
  obtain ⟨path, f⟩ := z
  induction path generalizing f with
  | nil => exact ⟨rfl, rfl⟩
  | cons node path ih =>
    obtain ⟨left, n⟩ := node
    have hcontainer := h.containers (left, n) List.mem_cons_self
    cases hn : n.isOpen with
    | true =>
      rw [Zipper.rise_of_pos hn]
      refine ⟨rfl, ?_⟩
      cases hc : openContainer n with
      | none =>
        have hshut := (openContainer_container (hcontainer hn)).mp hc
        rw [hn] at hshut
        cases hshut
      | some c =>
        rw [show openings ((left, n) :: path) = c :: openings path from List.filterMap_cons_some hc]
        exact ⟨left, n, path, rfl, hn, (type_of_openContainer hc).1, rfl⟩
    | false =>
      have hnone : openContainer n = none := if_neg (by rw [hn]; exact Bool.false_ne_true)
      rw [Zipper.rise_of_neg hn,
        show openings ((left, n) :: path) = openings path from List.filterMap_cons_none hnone]
      refine ih _ ⟨h.below.up hn, ?_⟩
      intro node hnode
      exact h.containers node (List.mem_cons_of_mem _ hnode)

theorem complete_iff (h : Settled z) : z.Complete ↔ openings z.path = [] := by
  obtain ⟨-, htop⟩ := openings_rise h
  rw [Complete]
  cases hstack : openings z.path with
  | nil =>
    rw [hstack] at htop
    simp [htop]
  | cons c stack =>
    rw [hstack] at htop
    obtain ⟨left, n, path, hpath, -⟩ := htop
    simp [hpath]

/-- After a rise past some node, the place is the innermost open container. -/
theorem place_rise (h : Settled z)
    (hpast : ∀ n, z.label = some n → n.isOpen = true → z.current.width ≠ 0) :
    place (z.rise JsonNode.isOpen) = Tolerant.inner (openings z.path) := by
  obtain ⟨path, f⟩ := z
  induction path generalizing f with
  | nil => rfl
  | cons node path ih =>
    obtain ⟨left, n⟩ := node
    have hrise := openings_rise h
    cases hn : n.isOpen with
    | true =>
      rw [Zipper.rise_of_pos hn] at hrise ⊢
      have hwidth : f.width ≠ 0 := hpast n rfl hn
      cases hopenings : openings ((left, n) :: path) with
      | nil =>
        rw [hopenings] at hrise
        exact absurd hrise.2 (List.cons_ne_nil _ _)
      | cons c stack =>
        rw [hopenings] at hrise
        obtain ⟨-, left', n', path', heq, -, htype, -⟩ := hrise
        cases heq
        show SuperKind.below n.type (f.width != 0) = SuperKind.below c.type true
        rw [htype, bne_iff_ne.mpr hwidth]
    | false =>
      have hnone : openContainer n = none := if_neg (by rw [hn]; exact Bool.false_ne_true)
      rw [Zipper.rise_of_neg hn,
        show openings ((left, n) :: path) = openings path from List.filterMap_cons_none hnone]
      refine ih _ ⟨h.below.up hn, ?_⟩ ?_
      · intro node hnode
        exact h.containers node (List.mem_cons_of_mem _ hnode)
      · intro m _ _
        exact Nat.succ_ne_zero _

/-- The place after a colon is below the last node. -/
theorem place_last (z : TokenTree) : place z.last = Tolerant.afterLast (types z.forest) := by
  have hlast := Zipper.preorder_forest z.last
  rw [Zipper.forest_last] at hlast
  rw [Tolerant.afterLast, types, labels]
  rw [hlast]
  rw [place, Zipper.label]
  cases hpath : z.last.path with
  | nil => rfl
  | cons node path =>
    obtain ⟨left, n⟩ := node
    show SuperKind.below n.type _ = _
    simp [Zipper.spine, Zipper.last, preorder, width]

/-! ## The machine follows the tree -/

theorem place_leaf (z : TokenTree) (n : JsonNode) : place (z.leaf n) = (place z).fill := by
  have hlabel : (z.leaf n).label = z.label := rfl
  have hwidth : ((z.leaf n).current.width != 0) = true := rfl
  unfold place
  rw [hlabel, hwidth]
  cases z.label with
  | none => rfl
  | some m => cases hm : m.type <;> simp [hm, SuperKind.below, SuperKind.fill]

theorem place_eq_object (z : TokenTree) :
    (z.label.any fun n => n.type == .object) = true ↔ place z = .object := by
  rw [place]
  cases z.label with
  | none => simp
  | some n => cases hn : n.type <;> simp [hn, SuperKind.below]

theorem refusesPrimitive_iff (z : TokenTree) :
    z.refusesPrimitive = true ↔ place z = .object ∨ place z = .key true := by
  rw [refusesPrimitive, place]
  cases z.label with
  | none => simp
  | some n => cases hn : n.type <;> simp [hn, SuperKind.below]

/-- Closing a container changes no type. -/
theorem types_relabel (path : List (Forest JsonNode × JsonNode)) (left f : Forest JsonNode)
    {n m : JsonNode} (h : n.type = m.type) :
    types (Zipper.forest ⟨(left, n) :: path, f⟩) =
      types (Zipper.forest ⟨(left, m) :: path, f⟩) := by
  unfold types labels
  rw [Zipper.preorder_forest, Zipper.preorder_forest]
  simp [Zipper.spine, h]

theorem toTolerant_close (h : Settled z) (c : Container) (pos : Nat) :
    (toTolerant z).act (.closing c pos) = (z.close c.type pos).map toTolerant := by
  have hsettled := h.rise
  have hforest := z.forest_rise JsonNode.isOpen
  obtain ⟨hopenings, htop⟩ := openings_rise h
  simp only [Tolerant.act, toTolerant]
  rw [TokenTree.close]
  generalize z.rise JsonNode.isOpen = risen at *
  cases hstack : openings z.path with
  | nil =>
    rw [hstack] at htop
    obtain ⟨path, f⟩ := risen
    cases htop
    rfl
  | cons top stack =>
    rw [hstack] at htop
    obtain ⟨left, n, path, hpath, hn, htype, rfl⟩ := htop
    obtain ⟨path', f⟩ := risen
    cases hpath
    have hinj : top = c ↔ n.type = c.type := by
      rw [htype]
      cases top <;> cases c <;> simp [Container.type]
    by_cases hc : top = c
    · dsimp only
      rw [if_pos hc, if_neg (not_not.mpr (hinj.mp hc))]
      have hshut : Settled ⟨(left, { n with stop := pos + 1 }) :: path, f⟩ := by
        refine ⟨hsettled.below.relabel _, ?_⟩
        intro node hnode hopen
        rcases List.mem_cons.mp hnode with rfl | hnode
        · rw [isOpen_closed] at hopen
          cases hopen
        · exact hsettled.containers node (List.mem_cons_of_mem _ hnode) hopen
      have hpast : openings ((left, { n with stop := (pos : Int) + 1 }) :: path) = openings path :=
        List.filterMap_cons_none (if_neg (by rw [isOpen_closed]; exact Bool.false_ne_true))
      have hplace := place_rise hshut (by
        rintro m ⟨⟩ hopen
        rw [isOpen_closed] at hopen
        cases hopen)
      have hrise := (openings_rise hshut).1
      have htypes :=
        types_relabel path left f (n := n) (m := { n with stop := (pos : Int) + 1 }) rfl
      rw [hpast] at hplace hrise
      rw [hforest] at htypes
      simp only [Option.map_some, toTolerant, Zipper.forest_rise, hplace, hrise, htypes]
    · dsimp only
      rw [if_neg hc, if_pos (fun htype => hc (hinj.mpr htype))]
      rfl

theorem openings_descend {path : List (Forest JsonNode × JsonNode)} {f : Forest JsonNode}
    (h : ∀ n ∈ f.labels, n.isOpen = false) :
    openings (Zipper.descend path f) = openings path := by
  induction f generalizing path with
  | nil => rfl
  | snoc left n children _ ih =>
    have hnone : openContainer n = none :=
      if_neg (by rw [h n (by simp)]; exact Bool.false_ne_true)
    show openings (Zipper.descend ((left, n) :: path) children) = _
    rw [ih fun m hm => h m (by simp [hm])]
    exact List.filterMap_cons_none hnone

theorem isLeaf_place (z : TokenTree) :
    (place z).isLeaf = z.label.any fun n => !n.isContainer := by
  rw [place]
  cases z.label with
  | none => rfl
  | some n =>
    cases hn : n.type <;> simp [hn, SuperKind.below, SuperKind.isLeaf, JsonNode.isContainer]

/-- The super token is a container if it is open. -/
theorem Settled.containers_label (h : Settled z) {n : JsonNode} (hn : z.label = some n)
    (hopen : n.isOpen = true) : n.isContainer = true := by
  obtain ⟨path, f⟩ := z
  cases path with
  | nil => cases hn
  | cons node path =>
    cases hn
    exact h.containers node List.mem_cons_self hopen

theorem toTolerant_comma (h : Settled z) :
    (toTolerant z).act .comma = some (toTolerant z.comma) := by
  have hopenings := (openings_rise h).1
  have hempty : (z.rise JsonNode.isOpen).path.isEmpty = true ↔ openings z.path = [] :=
    List.isEmpty_iff.trans (complete_iff h)
  have hleaf := isLeaf_place z
  simp only [Tolerant.act]
  rw [comma]
  by_cases hlabel : (z.label.any fun n => !n.isContainer) = true
  · rw [if_pos hlabel]
    rw [hlabel] at hleaf
    by_cases hstack : openings z.path = []
    · rw [if_pos (hempty.mpr hstack), if_neg (fun h => h.2 hstack)]
    · rw [if_neg (fun h => hstack (hempty.mp h)), if_pos ⟨hleaf, hstack⟩]
      have hplace := place_rise h (by
        intro n hn hopen
        rw [hn] at hlabel
        have hmem := h.containers_label hn hopen
        simp [hmem] at hlabel)
      simp only [toTolerant, Zipper.forest_rise, hplace, hopenings]
  · rw [if_neg hlabel, if_neg (fun h => hlabel (hleaf ▸ h.1))]

/-- **Step lemma**: the machine refuses what the tree refuses, and sees what it becomes. -/
theorem toTolerant_act (h : Settled z) (l : Lexeme) :
    (toTolerant z).act l = (z.act l).map toTolerant := by
  cases l with
  | opening c pos =>
    simp only [Tolerant.act, TokenTree.act]
    by_cases hobject : (toTolerant z).place = .object
    · rw [if_pos hobject, if_pos ((place_eq_object z).mpr hobject)]
      rfl
    · rw [if_neg hobject, if_neg (fun h => hobject ((place_eq_object z).mp h))]
      have hopen : openContainer ⟨c.type, pos, -1⟩ = some c := by
        have hpos : ((pos : Int) != -1) = true := by
          rw [bne_iff_ne]
          omega
        cases c <;> simp [openContainer, JsonNode.isOpen, hpos, Container.type]
      have hpath : openings (z.push ⟨c.type, pos, -1⟩).path = c :: openings z.path :=
        List.filterMap_cons_some hopen
      simp only [toTolerant, Option.map_some, hpath, Zipper.forest_push, types_leaf]
      rfl
  | closing c pos => exact toTolerant_close h c pos
  | string start stop =>
    simp only [Tolerant.act, TokenTree.act, Option.map_some, toTolerant, types_leaf, place_leaf]
    rfl
  | primitive start stop =>
    simp only [Tolerant.act, TokenTree.act]
    by_cases hrefuse : (toTolerant z).place = .object ∨ (toTolerant z).place = .key true
    · rw [if_pos hrefuse, if_pos ((refusesPrimitive_iff z).mpr hrefuse)]
      rfl
    · rw [if_neg hrefuse, if_neg (fun h => hrefuse ((refusesPrimitive_iff z).mp h))]
      simp only [Option.map_some, toTolerant, types_leaf, place_leaf]
      rfl
  | colon =>
    have hpath : openings z.last.path = openings z.path := openings_descend h.below.current
    simp only [Tolerant.act, TokenTree.act, Option.map_some, toTolerant, place_last,
      Zipper.forest_last, hpath]
  | comma => exact toTolerant_comma h

/-- **Run lemma**. -/
theorem toTolerant_run (h : Settled z) (ls : List Lexeme) :
    (toTolerant z).run ls = (z.run ls).map toTolerant := by
  induction ls generalizing z with
  | nil => rfl
  | cons l ls ih =>
    show ((toTolerant z).act l).bind _ = ((z.act l).bind _).map _
    rw [toTolerant_act h]
    cases hact : z.act l with
    | none => rfl
    | some z' => exact ih (h.act hact)

end TokenTree

open TokenTree

/-- The machine sees the tree that the text builds. -/
theorem tolerant_eq (json : Bytes) : tolerant json = (built json).map toTolerant := by
  rw [tolerant, built]
  cases lex json 0 0 with
  | none => rfl
  | some ls => exact toTolerant_run settled_empty ls

namespace JsonReader

variable {r : JsonReader} {json : Bytes}

/-- **What `parse` accepts**: the tolerated texts whose nodes fit. -/
theorem parse_ok_iff_tolerated :
    (r.parse json).1 = .ok ↔ ∃ nodes ≤ r.maxTokens, Tolerated json nodes := by
  have hnodes : ∀ f : Forest JsonNode, (types f).length = f.count := by
    intro f
    simp [types, labels]
  have hfirst : ∀ f : Forest JsonNode, (types f).head? = firstType f := by
    intro f
    exact List.head?_map
  rw [parse_ok_iff]
  unfold Tolerated
  rw [tolerant_eq]
  constructor
  · rintro ⟨z, hz, hle, hcomplete, htype⟩
    refine ⟨z.forest.count, hle, toTolerant z, by rw [hz]; rfl, ?_, ?_, hnodes _⟩
    · exact (complete_iff (built_settled hz)).mp hcomplete
    · rw [← htype]
      exact hfirst z.forest
  · rintro ⟨nodes, hle, s, hs, hstack, htype, rfl⟩
    obtain ⟨z, hz, rfl⟩ := Option.map_eq_some_iff.mp hs
    refine ⟨z, hz, ?_, (complete_iff (built_settled hz)).mpr hstack, ?_⟩
    · rw [← hnodes]
      exact hle
    · rw [← hfirst]
      exact htype

/-- **`parse` lets malformed texts through.** That a text is accepted only if it is well
formed holds of the well-formed texts, of those that jsmn does not tolerate, and of those
with more nodes than there are tokens; and of no other. -/
theorem parse_sound_iff (r : JsonReader) (json : Bytes) :
    ((r.parse json).1 = .ok → WellFormed json) ↔
      WellFormed json ∨ ∀ nodes, Tolerated json nodes → r.maxTokens < nodes := by
  rw [parse_ok_iff_tolerated]
  constructor
  · intro hsound
    by_cases hfits : ∃ nodes ≤ r.maxTokens, Tolerated json nodes
    · exact .inl (hsound hfits)
    · refine .inr fun nodes htolerated => ?_
      by_contra hle
      exact hfits ⟨nodes, by omega, htolerated⟩
  · rintro (hformed | hfull) ⟨nodes, hle, htolerated⟩
    · exact hformed
    · have hlt := hfull nodes htolerated
      omega

/-- Two objects one after the other are accepted, and are no JSON text: a document with two
nodes has a member. -/
theorem parse_accepts_two_roots :
    ¬ ∀ (r : JsonReader) (json : Bytes), (r.parse json).1 = .ok → WellFormed json := by
  intro hsound
  obtain ⟨-, d, hd⟩ := hsound (new 2) (Bytes.ascii "\x7b\x7d\x7b\x7d") (by decide)
  have hfull := parse_document_full (r := new 2) (d := d)
  have hreads := parse_document (r := new 2) (d := d)
  rw [← hd] at hfull hreads
  by_cases hle : d.count ≤ 2
  · have hr := (hreads hle).2
    have hcount : d.count = 2 := by
      rw [← hr.count]
      decide
    have hchildren := hr.childCount 0 _ _ (Value.at?_zero d.root d.lead.bytes.length)
    have hzero : d.members.length = 0 := by
      rw [show d.members.length = Part.childCount (.value d.root) from rfl, ← hchildren]
      decide
    obtain ⟨lead, members, trail⟩ := d
    cases members with
    | nil ws => cases hcount
    | cons => cases hzero
  · have hnomem := hfull (by simpa [new] using hle)
    revert hnomem
    decide

end JsonReader

end SoulCloud
