import SoulCloud.Json.Lexemes
import SoulCloud.Lib.Zipper

/-!
# The tokens are a forest in pre-order

jsmn keeps no tree: it counts children in `size` and finds the enclosing container by
scanning the tokens backwards. `TokenTree` is the tree it is building all the same, with
the super token in focus, and `TokenTree.act` is what each lexeme does to it.

- `Tracks`: the tokens are the listing of the tree, and `toksuper` is its focus.
- `lastToken_isOpen`: the backward scan finds what a rise to an open node finds. It rests on
  `Settled`: open tokens are on the path to the focus, so none is passed over.
- `Tracks.act`, `Tracks.run`: the tokenizer follows the tree through every list of lexemes,
  well-formed or not, as long as there is room.
-/

namespace SoulCloud

open Forest

/-- A token without its size: what a node of the tree carries. -/
structure JsonNode where
  type : JsmnType
  start : Int
  stop : Int
  deriving DecidableEq, Repr

namespace JsonNode

/-- The token for a node with `size` children. -/
def token (n : JsonNode) (size : Nat) : JsmnToken := ⟨n.type, n.start, n.stop, size⟩

def isOpen (n : JsonNode) : Bool := n.start != -1 && n.stop == -1

def isContainer (n : JsonNode) : Bool := n.type == .array || n.type == .object

@[simp] theorem isOpen_token (n : JsonNode) (size : Nat) : (n.token size).isOpen = n.isOpen := rfl

@[simp] theorem isContainer_token (n : JsonNode) (size : Nat) :
    (n.token size).isContainer = n.isContainer :=
  rfl

end JsonNode

/-- The tokens of a listing. -/
def tokensOf (listing : List (JsonNode × Nat)) : List JsmnToken :=
  listing.map fun entry => entry.1.token entry.2

@[simp] theorem tokensOf_append (l l' : List (JsonNode × Nat)) :
    tokensOf (l ++ l') = tokensOf l ++ tokensOf l' :=
  List.map_append

@[simp] theorem tokensOf_cons (n : JsonNode) (size : Nat) (l : List (JsonNode × Nat)) :
    tokensOf ((n, size) :: l) = n.token size :: tokensOf l :=
  rfl

@[simp] theorem tokensOf_nil : tokensOf [] = [] := rfl

@[simp] theorem length_tokensOf (l : List (JsonNode × Nat)) : (tokensOf l).length = l.length :=
  List.length_map _

/-- The tree under construction, with the super token in focus; no super token is a focus
above all trees. -/
abbrev TokenTree := Zipper JsonNode

namespace TokenTree

def tokens (z : TokenTree) : List JsmnToken := tokensOf z.forest.preorder

theorem length_tokens (z : TokenTree) : z.tokens.length = z.forest.count := by
  rw [tokens]
  rw [length_tokensOf, length_preorder]

/-! ## What a lexeme does to the tree -/

/-- A primitive is refused by an object and by a key that has its value. -/
def refusesPrimitive (z : TokenTree) : Bool :=
  z.label.any fun n => n.type == .object || (n.type == .string && z.current.width != 0)

/-- The innermost open node gets its end, and the focus rises to the next open one. -/
def close (z : TokenTree) (type : JsmnType) (pos : Nat) : Option TokenTree :=
  match z.rise JsonNode.isOpen with
  | ⟨[], _⟩ => none
  | ⟨(left, n) :: path, f⟩ =>
    if n.type ≠ type then none
    else some (Zipper.rise ⟨(left, { n with stop := pos + 1 }) :: path, f⟩ JsonNode.isOpen)

/-- Below a key or a primitive the focus rises to the innermost open node, if there is one. -/
def comma (z : TokenTree) : TokenTree :=
  if z.label.any fun n => !n.isContainer then
    if (z.rise JsonNode.isOpen).path.isEmpty then z else z.rise JsonNode.isOpen
  else z

/-- What one lexeme does to the tree; `none` when it does not fit. -/
def act (z : TokenTree) : Lexeme → Option TokenTree
  | .opening c pos =>
    if z.label.any fun n => n.type == .object then none else some (z.push ⟨c.type, pos, -1⟩)
  | .closing c pos => z.close c.type pos
  | .string start stop => some (z.leaf ⟨.string, start, stop⟩)
  | .primitive start stop =>
    if z.refusesPrimitive then none else some (z.leaf ⟨.primitive, start, stop⟩)
  | .colon => some z.last
  | .comma => some z.comma

/-- What a list of lexemes does to the tree. -/
def run (z : TokenTree) : List Lexeme → Option TokenTree
  | [] => some z
  | l :: ls => (z.act l).bind fun z => run z ls

theorem run_append (z : TokenTree) (ls ls' : List Lexeme) :
    z.run (ls ++ ls') = (z.run ls).bind fun z => z.run ls' := by
  induction ls generalizing z with
  | nil => rfl
  | cons l ls ih =>
    show ((z.act l).bind fun z => run z (ls ++ ls')) = (((z.act l).bind fun z => run z ls)).bind _
    cases z.act l with
    | none => rfl
    | some z => exact ih z

/-! ## What holds of every tree -/

/-- No node off the path to the focus is open, and open nodes are containers. -/
structure Settled (z : TokenTree) : Prop where
  below : Zipper.Below (fun n : JsonNode => n.isOpen = false) z
  containers : ∀ node ∈ z.path, node.2.isOpen = true → node.2.isContainer = true

theorem settled_empty : Settled Zipper.empty := ⟨Zipper.below_empty, nofun⟩

theorem isOpen_leaf {type : JsmnType} {start stop : Nat} :
    (⟨type, start, stop⟩ : JsonNode).isOpen = false := by
  have h : ((stop : Int) == -1) = false := by
    rw [beq_eq_false_iff_ne]
    omega
  simp [JsonNode.isOpen, h]

theorem isOpen_closed {n : JsonNode} {pos : Nat} :
    ({ n with stop := pos + 1 } : JsonNode).isOpen = false := by
  have h : ((pos : Int) + 1 == -1) = false := by
    rw [beq_eq_false_iff_ne]
    omega
  simp [JsonNode.isOpen, h]

variable {z z' : TokenTree}

theorem Settled.leaf (h : Settled z) {type : JsmnType} {start stop : Nat} :
    Settled (z.leaf ⟨type, start, stop⟩) :=
  ⟨h.below.leaf isOpen_leaf, h.containers⟩

theorem Settled.push (h : Settled z) (c : Container) (pos : Nat) :
    Settled (z.push ⟨c.type, pos, -1⟩) := by
  refine ⟨h.below.push _, ?_⟩
  intro node hnode _
  rcases List.mem_cons.mp hnode with rfl | hnode
  · cases c <;> rfl
  · exact h.containers node hnode ‹_›

theorem rise_path_subset (z : TokenTree) :
    ∀ node ∈ (z.rise JsonNode.isOpen).path, node ∈ z.path := by
  obtain ⟨path, f⟩ := z
  induction path generalizing f with
  | nil => nofun
  | cons node path ih =>
    obtain ⟨left, n⟩ := node
    intro node hnode
    cases hn : n.isOpen with
    | true =>
      rw [Zipper.rise_of_pos hn] at hnode
      exact hnode
    | false =>
      rw [Zipper.rise_of_neg hn] at hnode
      exact List.mem_cons_of_mem _ (ih _ node hnode)

theorem Settled.rise (h : Settled z) : Settled (z.rise JsonNode.isOpen) :=
  ⟨h.below.rise fun _ ha => ha, fun node hnode => h.containers node (z.rise_path_subset node hnode)⟩

theorem Settled.close (h : Settled z) {type : JsmnType} {pos : Nat}
    (hclose : z.close type pos = some z') : Settled z' := by
  have hrise := h.rise
  rw [TokenTree.close] at hclose
  split at hclose
  · cases hclose
  · rename_i left n path f heq
    rw [heq] at hrise
    split_ifs at hclose
    cases hclose
    refine Settled.rise ⟨hrise.below.relabel _, ?_⟩
    intro node hnode hopen
    rcases List.mem_cons.mp hnode with rfl | hnode
    · rw [isOpen_closed] at hopen
      cases hopen
    · exact hrise.containers node (List.mem_cons_of_mem _ hnode) hopen

theorem Settled.last (h : Settled z) : Settled z.last := by
  refine ⟨h.below.last, ?_⟩
  intro node hnode hopen
  rcases Zipper.mem_descend hnode with hnode | hnode
  · exact h.containers node hnode hopen
  · rw [h.below.current _ hnode] at hopen
    cases hopen

theorem Settled.comma (h : Settled z) : Settled z.comma := by
  rw [TokenTree.comma]
  split_ifs
  · exact h
  · exact h.rise
  · exact h

/-- **Step lemma**: every lexeme keeps the tree settled. -/
theorem Settled.act (h : Settled z) {l : Lexeme} (hact : z.act l = some z') : Settled z' := by
  cases l with
  | opening c pos =>
    simp only [TokenTree.act] at hact
    split_ifs at hact
    cases hact
    exact h.push c pos
  | closing c pos => exact h.close hact
  | string start stop =>
    cases hact
    exact h.leaf
  | primitive start stop =>
    simp only [TokenTree.act] at hact
    split_ifs at hact
    cases hact
    exact h.leaf
  | colon =>
    cases hact
    exact h.last
  | comma =>
    cases hact
    exact h.comma

/-- **Run lemma**. -/
theorem Settled.run (h : Settled z) {ls : List Lexeme} (hrun : z.run ls = some z') :
    Settled z' := by
  induction ls generalizing z with
  | nil =>
    cases hrun
    exact h
  | cons l ls ih =>
    obtain ⟨z₁, hact, hrun⟩ := Option.bind_eq_some_iff.mp hrun
    exact ih (h.act hact) hrun

/-! ## Scanning backwards -/

/-- The tokens up to the focus, the focused one and those below it. -/
theorem tokens_of_path (left : Forest JsonNode) (n : JsonNode)
    (path : List (Forest JsonNode × JsonNode)) (f : Forest JsonNode) :
    TokenTree.tokens ⟨(left, n) :: path, f⟩ =
      tokensOf (Zipper.spine path (left.width + 1) ++ left.preorder) ++
        n.token f.width :: tokensOf f.preorder := by
  rw [tokens]
  rw [Zipper.preorder_forest]
  simp [Zipper.spine]

theorem focus_eq (left : Forest JsonNode) (n : JsonNode)
    (path : List (Forest JsonNode × JsonNode)) (f : Forest JsonNode) :
    Zipper.focus ⟨(left, n) :: path, f⟩ =
      some (tokensOf (Zipper.spine path (left.width + 1) ++ left.preorder)).length := by
  simp [Zipper.focus, Zipper.length_spine path _ 0]

end TokenTree

section LastToken

variable {test : JsmnToken → Bool} {ts us : List JsmnToken}

theorem lastToken_append {n : Nat} (h : n ≤ ts.length) :
    lastToken test (ts ++ us) n = lastToken test ts n := by
  induction n with
  | zero => rfl
  | succ n ih =>
    unfold lastToken
    rw [List.getElem?_append_left h, ih (Nat.le_of_succ_le h)]

/-- Tokens that fail the test are passed over. -/
theorem lastToken_of_not {n k : Nat} (h : ∀ i, n ≤ i → i < n + k → ts[i]?.any test = false) :
    lastToken test ts (n + k) = lastToken test ts n := by
  induction k with
  | zero => rfl
  | succ k ih =>
    show (if ts[n + k]?.any test then some (n + k) else lastToken test ts (n + k)) = _
    rw [h (n + k) (Nat.le_add_right n k) (Nat.lt_succ_self _), ih]
    · rfl
    · intro i hle hlt
      exact h i hle (Nat.lt_succ_of_lt hlt)

/-- A scan over tokens of which the last ones fail the test. -/
theorem lastToken_append_of_not (h : ∀ t ∈ us, test t = false) :
    lastToken test (ts ++ us) (ts ++ us).length = lastToken test ts ts.length := by
  rw [List.length_append, lastToken_of_not, lastToken_append (Nat.le_refl _)]
  intro i hle hlt
  rw [List.getElem?_append_right hle]
  cases hget : us[i - ts.length]? with
  | none => rfl
  | some t => exact h t (List.mem_of_getElem? hget)

/-- Such a scan may as well start at the last token that might pass. -/
theorem lastToken_append_cons {t : JsmnToken} (h : ∀ u ∈ us, test u = false) :
    lastToken test (ts ++ t :: us) (ts.length + 1) =
      lastToken test (ts ++ t :: us) (ts ++ t :: us).length := by
  rw [List.append_cons, lastToken_append_of_not h, lastToken_append (by simp), List.length_append,
    List.length_singleton]

theorem lastToken_of_pos {t : JsmnToken} (ht : test t = true) :
    lastToken test (ts ++ [t]) (ts ++ [t]).length = some ts.length := by
  rw [List.length_append]
  show (if (ts ++ [t])[ts.length]?.any test then _ else _) = _
  rw [List.getElem?_concat_length]
  exact if_pos ht

end LastToken

namespace TokenTree

variable {z z' : TokenTree}

theorem not_isOpen_of_mem {f : Forest JsonNode} (h : ∀ n ∈ f.labels, n.isOpen = false) :
    ∀ t ∈ tokensOf f.preorder, t.isOpen = false := by
  intro t ht
  obtain ⟨entry, hentry, rfl⟩ := List.mem_map.mp ht
  exact h entry.1 (List.mem_map_of_mem hentry)

/-- **The backward scan finds the innermost open node.** -/
theorem lastToken_isOpen (h : Settled z) :
    lastToken JsmnToken.isOpen z.tokens z.tokens.length = (z.rise JsonNode.isOpen).focus := by
  obtain ⟨path, f⟩ := z
  induction path generalizing f with
  | nil =>
    have hall := @lastToken_append_of_not JsmnToken.isOpen [] _ (not_isOpen_of_mem h.below.current)
    exact hall
  | cons node path ih =>
    obtain ⟨left, n⟩ := node
    cases hn : n.isOpen with
    | true =>
      rw [Zipper.rise_of_pos hn, focus_eq, tokens_of_path]
      rw [List.append_cons, lastToken_append_of_not (not_isOpen_of_mem h.below.current),
        lastToken_of_pos hn]
    | false =>
      rw [Zipper.rise_of_neg hn]
      exact ih _ ⟨h.below.up hn, fun node hnode => h.containers node (List.mem_cons_of_mem _ hnode)⟩

/-- Open nodes are containers, so the scan for an open container finds the same one. -/
theorem lastToken_isOpenContainer (h : Settled z) :
    lastToken (fun t => t.isContainer && t.isOpen) z.tokens z.tokens.length =
      (z.rise JsonNode.isOpen).focus := by
  rw [← lastToken_isOpen h]
  suffices hall : ∀ t ∈ z.tokens, (t.isContainer && t.isOpen) = t.isOpen by
    generalize z.tokens.length = n
    induction n with
    | zero => rfl
    | succ n ih =>
      unfold lastToken
      rw [ih]
      cases hget : z.tokens[n]? with
      | none => rfl
      | some t =>
        rw [Option.any_some, Option.any_some, hall t (List.mem_of_getElem? hget)]
  intro t ht
  obtain ⟨entry, hentry, rfl⟩ := List.mem_map.mp ht
  cases hopen : entry.1.isOpen with
  | false => simp [hopen]
  | true =>
    rcases h.below.mem (List.mem_map_of_mem hentry) with hclosed | ⟨node, hnode, heq⟩
    · rw [hclosed] at hopen
      cases hopen
    · have hcontainer := h.containers node hnode (heq ▸ hopen)
      simp [heq, hcontainer]

/-! ## The tokenizer follows the tree -/

/-- The tokenizer's state is the listing of the tree, and its super token the focus. -/
structure Tracks (z : TokenTree) (s : JsmnParser) : Prop where
  tokens : s.tokens = z.tokens
  toksuper : s.toksuper = z.focus

theorem tracks_empty : Tracks Zipper.empty .init := ⟨rfl, rfl⟩

variable {s : JsmnParser} {cap : Nat}

theorem Tracks.super (h : Tracks z s) :
    s.super = z.label.map fun n => n.token z.current.width := by
  rw [JsmnParser.super]
  rw [h.toksuper, h.tokens]
  obtain ⟨path, f⟩ := z
  cases path with
  | nil => rfl
  | cons node path =>
    obtain ⟨left, n⟩ := node
    rw [focus_eq, tokens_of_path, Option.bind_some, List.getElem?_append_right (Nat.le_refl _),
      Nat.sub_self]
    rfl

theorem Tracks.superIs (h : Tracks z s) (test : JsmnToken → Bool) :
    s.super.any test = z.label.any fun n => test (n.token z.current.width) := by
  rw [h.super]
  cases z.label <;> rfl

theorem modify_append_cons {α : Type} (g : α → α) (xs : List α) (y : α) (ys : List α) :
    (xs ++ y :: ys).modify xs.length g = xs ++ g y :: ys := by
  induction xs with
  | nil => rfl
  | cons x xs ih =>
    rw [List.cons_append, List.length_cons, List.modify_succ_cons, ih]
    rfl

/-- A new token that the super token counts. -/
theorem Tracks.grow (h : Tracks z s) (n : JsonNode) :
    JsmnParser.grow { s with tokens := s.tokens ++ [n.token 0] } =
      ⟨TokenTree.tokens (z.leaf n), s.toksuper⟩ := by
  obtain ⟨toks, toksuper⟩ := s
  obtain ⟨htoks, hsuper⟩ := h
  dsimp only at htoks hsuper ⊢
  subst htoks hsuper
  obtain ⟨path, f⟩ := z
  have hleaf : TokenTree.tokens (Zipper.leaf ⟨path, f⟩ n) =
      tokensOf (Zipper.spine path (f.width + 1)) ++ tokensOf f.preorder ++ [n.token 0] := by
    rw [TokenTree.tokens]
    rw [Zipper.preorder_leaf]
    simp
  cases path with
  | nil =>
    rw [hleaf]
    show JsmnParser.mk _ _ = _
    simp [TokenTree.tokens, Zipper.preorder_forest, Zipper.spine]
  | cons node path =>
    obtain ⟨left, m⟩ := node
    rw [JsmnParser.grow]
    rw [focus_eq, hleaf, tokens_of_path]
    dsimp only
    rw [List.append_assoc, List.cons_append, modify_append_cons]
    simp [Zipper.spine, JsonNode.token]

theorem Tracks.addLeaf (h : Tracks z s) (cap : Nat) (type : JsmnType) (start stop : Nat) :
    (z.forest.count < cap → ∃ s', s.addLeaf cap type start stop = .ok s' ∧
      Tracks (z.leaf ⟨type, start, stop⟩) s') ∧
    (cap ≤ z.forest.count → s.addLeaf cap type start stop = .error .noMem) := by
  have hlen : s.tokens.length = z.forest.count := by
    rw [h.tokens, length_tokens]
  rw [JsmnParser.addLeaf, JsmnParser.alloc]
  constructor
  · intro hroom
    rw [if_neg (by omega)]
    refine ⟨_, rfl, ?_⟩
    have hgrow := h.grow ⟨type, start, stop⟩
    constructor
    · exact congrArg JsmnParser.tokens hgrow
    · exact (congrArg JsmnParser.toksuper hgrow).trans h.toksuper
  · intro hfull
    rw [if_pos (by omega)]

theorem Tracks.beginContainer (h : Tracks z s) (cap : Nat) (c : Container) (pos : Nat)
    (hfit : z.label.any (fun n => n.type == .object) = false) :
    (z.forest.count < cap → ∃ s', s.beginContainer cap c.type pos = .ok s' ∧
      Tracks (z.push ⟨c.type, pos, -1⟩) s') ∧
    (cap ≤ z.forest.count → s.beginContainer cap c.type pos = .error .noMem) := by
  have hlen : s.tokens.length = z.forest.count := by
    rw [h.tokens, length_tokens]
  rw [JsmnParser.beginContainer, JsmnParser.alloc]
  constructor
  · intro hroom
    have hsuper : s.super.any (fun t => t.type == .object) = false := by
      rw [h.superIs]
      exact hfit
    rw [if_neg (by omega), hsuper]
    refine ⟨_, rfl, ?_⟩
    have hgrow := h.grow ⟨c.type, pos, -1⟩
    constructor
    · exact congrArg JsmnParser.tokens hgrow
    · rw [Zipper.focus_push, ← hlen]
  · intro hfull
    rw [if_pos (by omega)]

theorem Tracks.beginContainer_error (h : Tracks z s) (c : Container) (pos : Nat)
    (hfit : z.label.any (fun n => n.type == .object) = true) :
    ∃ e, s.beginContainer cap c.type pos = .error e := by
  rw [JsmnParser.beginContainer]
  cases s.alloc cap ⟨c.type, pos, -1, 0⟩ with
  | error e => exact ⟨e, rfl⟩
  | ok s' =>
    dsimp only
    rw [h.superIs]
    exact ⟨.inval, if_pos hfit⟩

theorem tokens_rise (z : TokenTree) (p : JsonNode → Bool) :
    TokenTree.tokens (z.rise p) = z.tokens := by
  unfold tokens
  rw [Zipper.forest_rise]

/-- A closing bracket: the same node is closed, and the scan goes on below it. -/
theorem Tracks.endContainer (h : Tracks z s) (hz : Settled z) (type : JsmnType) (pos : Nat) :
    match z.close type pos with
    | none => s.endContainer type pos = .error .inval
    | some z' => ∃ s', s.endContainer type pos = .ok s' ∧ Tracks z' s' := by
  have hscan : lastToken JsmnToken.isOpen s.tokens s.tokens.length =
      (z.rise JsonNode.isOpen).focus := by
    rw [h.tokens]
    exact lastToken_isOpen hz
  have hrise := hz.rise
  have htoks := h.tokens.trans (tokens_rise z JsonNode.isOpen).symm
  rw [TokenTree.close, JsmnParser.endContainer]
  rw [hscan]
  generalize z.rise JsonNode.isOpen = zr at htoks hrise
  obtain ⟨path, f⟩ := zr
  cases path with
  | nil => rfl
  | cons node path =>
    obtain ⟨left, n⟩ := node
    rw [tokens_of_path] at htoks
    rw [focus_eq, htoks]
    dsimp only
    generalize hbefore : tokensOf (Zipper.spine path (left.width + 1) ++ left.preorder) = before
    have hget : (before ++ n.token f.width :: tokensOf f.preorder)[before.length]? =
        some (n.token f.width) := by
      rw [List.getElem?_append_right (Nat.le_refl _), Nat.sub_self]
      rfl
    rw [hget, Option.any_some, modify_append_cons]
    by_cases htype : n.type = type
    · have hne : ((n.token f.width).type != type) = false := by
        rw [bne_eq_false_iff_eq]
        exact htype
      rw [if_neg (by simpa using htype), hne]
      refine ⟨_, rfl, ?_⟩
      have hz₁ : Settled ⟨(left, { n with stop := pos + 1 }) :: path, f⟩ := by
        refine ⟨hrise.below.relabel _, ?_⟩
        intro node hnode hopen
        rcases List.mem_cons.mp hnode with rfl | hnode
        · rw [isOpen_closed] at hopen
          cases hopen
        · exact hrise.containers node (List.mem_cons_of_mem _ hnode) hopen
      have htoks₁ := tokens_of_path left { n with stop := pos + 1 } path f
      rw [hbefore] at htoks₁
      constructor
      · rw [tokens_rise, htoks₁]
        rfl
      · -- The tokens after the closed one are closed, so the scan may as well start at the end.
        rw [← lastToken_isOpen hz₁, htoks₁]
        exact lastToken_append_cons (not_isOpen_of_mem hrise.below.current)
    · have hne : ((n.token f.width).type != type) = true := by
        rw [bne_iff_ne]
        exact htype
      rw [if_pos (by simpa using htype), hne]
      rfl

theorem Tracks.colon (h : Tracks z s) : Tracks z.last s.colon := by
  have hlen : s.tokens.length = z.forest.count := by
    rw [h.tokens, length_tokens]
  constructor
  · rw [JsmnParser.colon, TokenTree.tokens]
    rw [Zipper.forest_last]
    exact h.tokens
  · rw [JsmnParser.colon]
    rw [Zipper.focus_last, hlen]

theorem Tracks.comma (h : Tracks z s) (hz : Settled z) : Tracks z.comma s.comma := by
  have hsuper : (s.super.any fun t => !t.isContainer) =
      z.label.any fun n => !n.isContainer := h.superIs _
  have hscan : lastToken (fun t => t.isContainer && t.isOpen) s.tokens s.tokens.length =
      (z.rise JsonNode.isOpen).focus := by
    rw [h.tokens]
    exact lastToken_isOpenContainer hz
  rw [TokenTree.comma, JsmnParser.comma]
  rw [hsuper, hscan]
  split
  · have htoks := h.tokens.trans (tokens_rise z JsonNode.isOpen).symm
    generalize z.rise JsonNode.isOpen = zr at htoks
    obtain ⟨path, f⟩ := zr
    cases path with
    | nil => exact h
    | cons node path => exact ⟨htoks, rfl⟩
  · exact h

theorem Tracks.refusesPrimitive (h : Tracks z s) : s.refusesPrimitive = z.refusesPrimitive :=
  h.superIs _

/-! ## Runs -/

/-- Where a run with room for `cap` tokens ends: with the tree, or without room. -/
def Ends (cap : Nat) (z : TokenTree) (result : Except JsmnError JsmnParser) : Prop :=
  (z.forest.count ≤ cap → ∃ s, result = .ok s ∧ Tracks z s) ∧
    (cap < z.forest.count → result = .error .noMem)

theorem count_rise (z : TokenTree) (p : JsonNode → Bool) :
    (z.rise p).forest.count = z.forest.count := by
  rw [Zipper.forest_rise]

theorem count_close {type : JsmnType} {pos : Nat} (h : z.close type pos = some z') :
    z'.forest.count = z.forest.count := by
  have hcount := z.count_rise JsonNode.isOpen
  rw [TokenTree.close] at h
  split at h
  · cases h
  · rename_i left n path f heq
    split_ifs at h
    cases h
    rw [heq] at hcount
    rw [count_rise, ← hcount, Zipper.count_forest, Zipper.count_forest]
    simp [Zipper.spine]

theorem count_comma (z : TokenTree) : z.comma.forest.count = z.forest.count := by
  rw [TokenTree.comma]
  split_ifs
  · rfl
  · exact z.count_rise _
  · rfl

/-- No lexeme takes a node away. -/
theorem count_act {l : Lexeme} (h : z.act l = some z') : z.forest.count ≤ z'.forest.count := by
  cases l with
  | opening c pos =>
    simp only [TokenTree.act] at h
    split_ifs at h
    cases h
    rw [Zipper.forest_push, Zipper.count_leaf]
    exact Nat.le_succ _
  | closing c pos => exact (count_close h).ge
  | string start stop =>
    cases h
    rw [Zipper.count_leaf]
    exact Nat.le_succ _
  | primitive start stop =>
    simp only [TokenTree.act] at h
    split_ifs at h
    cases h
    rw [Zipper.count_leaf]
    exact Nat.le_succ _
  | colon =>
    cases h
    rw [Zipper.forest_last]
  | comma =>
    cases h
    exact z.count_comma.ge

theorem count_run {ls : List Lexeme} (h : z.run ls = some z') :
    z.forest.count ≤ z'.forest.count := by
  induction ls generalizing z with
  | nil =>
    cases h
    exact Nat.le_refl _
  | cons l ls ih =>
    obtain ⟨z₁, hact, hrun⟩ := Option.bind_eq_some_iff.mp h
    exact (count_act hact).trans (ih hrun)

/-- **Step lemma**: the tokenizer does what the tree does, as long as there is room. -/
theorem Tracks.act (h : Tracks z s) (hz : Settled z) (hroom : z.forest.count ≤ cap)
    (l : Lexeme) :
    match z.act l with
    | none => ∃ e, s.act cap l = .error e
    | some z' => Ends cap z' (s.act cap l) := by
  cases l with
  | opening c pos =>
    unfold TokenTree.act JsmnParser.act
    dsimp only
    by_cases hfit : z.label.any (fun n => n.type == .object) = true
    · rw [if_pos hfit]
      exact h.beginContainer_error c pos hfit
    · rw [if_neg hfit]
      obtain ⟨hok, hfull⟩ := h.beginContainer cap c pos (Bool.not_eq_true _ ▸ hfit)
      have hcount : (z.push ⟨c.type, pos, -1⟩).forest.count = z.forest.count + 1 := by
        rw [Zipper.forest_push, Zipper.count_leaf]
      exact ⟨fun hle => hok (by omega), fun hlt => hfull (by omega)⟩
  | closing c pos =>
    have hclose := h.endContainer hz c.type pos
    unfold TokenTree.act JsmnParser.act
    dsimp only
    cases heq : z.close c.type pos with
    | none =>
      rw [heq] at hclose
      exact ⟨_, hclose⟩
    | some z' =>
      rw [heq] at hclose
      have hcount := count_close heq
      exact ⟨fun _ => hclose, fun hlt => absurd hlt (by omega)⟩
  | string start stop =>
    obtain ⟨hok, hfull⟩ := h.addLeaf cap .string start stop
    have hcount := z.count_leaf ⟨.string, start, stop⟩
    exact ⟨fun hle => hok (by omega), fun hlt => hfull (by omega)⟩
  | primitive start stop =>
    unfold TokenTree.act JsmnParser.act
    dsimp only
    rw [h.refusesPrimitive]
    cases z.refusesPrimitive with
    | true => exact ⟨_, rfl⟩
    | false =>
      obtain ⟨hok, hfull⟩ := h.addLeaf cap .primitive start stop
      have hcount := z.count_leaf ⟨.primitive, start, stop⟩
      exact ⟨fun hle => hok (by omega), fun hlt => hfull (by omega)⟩
  | colon =>
    have hcount : z.last.forest.count = z.forest.count := by
      rw [Zipper.forest_last]
    exact ⟨fun _ => ⟨_, rfl, h.colon⟩, fun hlt => absurd hlt (by omega)⟩
  | comma =>
    have hcount := z.count_comma
    exact ⟨fun _ => ⟨_, rfl, h.comma hz⟩, fun hlt => absurd hlt (by omega)⟩

/-- **Run lemma**: through any list of lexemes. -/
theorem Tracks.run (h : Tracks z s) (hz : Settled z) (hroom : z.forest.count ≤ cap)
    (ls : List Lexeme) :
    match z.run ls with
    | none => ∃ e, s.run cap ls = .error e
    | some z' => Ends cap z' (s.run cap ls) := by
  induction ls generalizing z s with
  | nil => exact ⟨fun _ => ⟨s, rfl, h⟩, fun hlt => absurd hlt (by omega)⟩
  | cons l ls ih =>
    have hact := h.act hz hroom l
    rw [TokenTree.run, JsmnParser.run]
    cases hz₁ : z.act l with
    | none =>
      rw [hz₁] at hact
      obtain ⟨e, he⟩ := hact
      rw [he]
      exact ⟨e, rfl⟩
    | some z₁ =>
      rw [hz₁] at hact
      obtain ⟨hok, hfull⟩ := hact
      rw [Option.bind_some]
      rcases Nat.lt_or_ge cap z₁.forest.count with hlt | hle
      · -- No room for this token; whatever comes later, the run has ended.
        rw [hfull hlt]
        cases hrun : z₁.run ls with
        | none => exact ⟨_, rfl⟩
        | some z' =>
          have hmono := count_run hrun
          exact ⟨fun hle => absurd hle (by omega), fun _ => rfl⟩
      · obtain ⟨s₁, hs₁, htracks⟩ := hok hle
        rw [hs₁]
        exact ih htracks (hz.act hz₁) hle

end TokenTree

end SoulCloud
