import SoulCloud.Json.Reader
import SoulCloud.Json.TokenTree

/-!
# Looking things up in a forest

What the lookup functions of the reader compute when its tokens are the listing of a
forest. Nothing here depends on how the tokens came about.

- `JsonReader.Lists`: the tokens of the reader are those of a forest.
- `Lists.skip`, `Lists.find`: `skip` leaves a subtree, and `find` goes through the children
  of an object as `findTrees` does.
- `findTrees_spec`: where what `find` returns lies.
-/

namespace SoulCloud

open Forest

namespace JsonReader

/-- The tokens of the reader are the listing of `f`. -/
structure Lists (r : JsonReader) (f : Forest JsonNode) : Prop where
  tokens : r.tokens = tokensOf f.preorder
  count : r.count = f.count

variable {r : JsonReader} {f : Forest JsonNode}

theorem Lists.length_tokens (h : Lists r f) : r.tokens.length = r.count := by
  rw [h.tokens, h.count, length_tokensOf, length_preorder]

/-- The token at a place of the listing. -/
theorem Lists.getElem? (h : Lists r f) {before after : List (JsonNode × Nat)} {n : JsonNode}
    {size : Nat} (hf : f.preorder = before ++ (n, size) :: after) :
    r.tokens[before.length]? = some (n.token size) := by
  rw [h.tokens, hf, tokensOf_append, List.getElem?_append_right (by simp)]
  simp

theorem Lists.token? (h : Lists r f) {before after : List (JsonNode × Nat)} {n : JsonNode}
    {size : Nat} (hf : f.preorder = before ++ (n, size) :: after) :
    r.token? (some before.length) = some (n.token size) := by
  have hlt : before.length < r.count := by
    rw [h.count, ← length_preorder, hf, List.length_append, List.length_cons]
    omega
  unfold JsonReader.token?
  dsimp only
  rw [if_pos hlt, h.getElem? hf]

theorem Lists.token?_at (h : Lists r f) {i : Nat} {n : JsonNode} {kids : Forest JsonNode}
    (hat : f.at? i = some (n, kids)) : r.token? (some i) = some (n.token kids.width) := by
  obtain ⟨before, after, rfl, hf⟩ := preorder_of_at? hat
  exact h.token? hf

/-- A token is a node of the forest. -/
theorem Lists.at?_of_token? (h : Lists r f) {tok : Option Nat} {t : JsmnToken}
    (ht : r.token? tok = some t) :
    ∃ i n kids, tok = some i ∧ i < r.count ∧ f.at? i = some (n, kids) ∧ t = n.token kids.width := by
  cases tok with
  | none => cases ht
  | some i =>
    have hlt : i < r.count := by
      by_contra hle
      have hnone : r.token? (some i) = none := if_neg hle
      rw [hnone] at ht
      cases ht
    obtain ⟨⟨n, kids⟩, hat⟩ := at?_of_lt (h.count ▸ hlt)
    rw [h.token?_at hat] at ht
    exact ⟨i, n, kids, rfl, hlt, hat, (Option.some.inj ht).symm⟩

/-- **`skip` leaves the subtree.** -/
theorem Lists.skip (h : Lists r f) {before after : List (JsonNode × Nat)} {n : JsonNode}
    {kids : Forest JsonNode}
    (hf : f.preorder = before ++ (n, kids.width) :: (kids.preorder ++ after)) :
    r.skip (some before.length) =
      if after = [] then none else some (before.length + 1 + kids.count) := by
  have hcount : r.count = before.length + 1 + kids.count + after.length := by
    rw [h.count, ← length_preorder, hf]
    simp only [List.length_append, List.length_cons, length_preorder]
    omega
  have hsizes : ((r.tokens.take r.count).drop before.length).map (·.size) =
      kids.width :: (kids.preorder.map Prod.snd ++ after.map Prod.snd) := by
    rw [List.take_of_length_le (h.length_tokens ▸ Nat.le_refl _), h.tokens, hf, tokensOf_append,
      ← length_tokensOf before, List.drop_left]
    simp [tokensOf, JsonNode.token, Function.comp_def]
  unfold JsonReader.skip
  dsimp only
  rw [if_pos (by omega), hsizes, span_tree]
  cases after with
  | nil => rw [if_neg (by simp only [List.length_nil] at hcount; omega), if_pos rfl]
  | cons entry after =>
    rw [if_pos (by simp only [List.length_cons] at hcount; omega), if_neg (List.cons_ne_nil _ _)]
    congr 1
    omega

theorem Lists.skip_at (h : Lists r f) {i : Nat} {n : JsonNode} {kids : Forest JsonNode}
    (hat : f.at? i = some (n, kids)) :
    r.skip (some i) = if i + 1 + kids.count < r.count then some (i + 1 + kids.count) else none := by
  obtain ⟨before, after, rfl, hf⟩ := preorder_of_at? hat
  have hcount : r.count = before.length + 1 + kids.count + after.length := by
    rw [h.count, ← length_preorder, hf]
    simp only [List.length_append, List.length_cons, length_preorder]
    omega
  rw [h.skip hf]
  cases after with
  | nil => rw [if_pos rfl, if_neg (by simp only [List.length_nil] at hcount; omega)]
  | cons entry after =>
    rw [if_neg (List.cons_ne_nil _ _), if_pos (by simp only [List.length_cons] at hcount; omega)]

/-! ## Members -/

/-- The entries of a sequence of trees. -/
def listing (trees : List (JsonNode × Forest JsonNode)) : List (JsonNode × Nat) :=
  trees.flatMap fun t => (t.1, t.2.width) :: t.2.preorder

/-- What `find` makes of the children of an object, where the first one is token `i`: a
child that does not have exactly one child itself ends the search. -/
def findTrees (r : JsonReader) (key : Bytes) :
    List (JsonNode × Forest JsonNode) → Nat → Option Nat
  | [], _ => none
  | (n, kids) :: rest, i =>
    if kids.width ≠ 1 then none
    else if r.keyEquals (n.token 1) key then some (i + 1)
    else r.findTrees key rest (i + 1 + kids.count)

theorem eq_snoc_of_width {kids : Forest JsonNode} (h : kids.width = 1) :
    ∃ v vkids, kids = snoc nil v vkids := by
  cases kids with
  | nil => cases h
  | snoc init v vkids =>
    cases init with
    | nil => exact ⟨v, vkids, rfl⟩
    | snoc init w wkids =>
      simp only [width] at h
      omega

/-- A member with one value, in the list of tokens. -/
theorem listing_member (before after : List (JsonNode × Nat)) (n v : JsonNode)
    (vkids : Forest JsonNode) (rest : List (JsonNode × Forest JsonNode)) :
    before ++ (listing ((n, snoc nil v vkids) :: rest) ++ after) =
      (before ++ [(n, 1)]) ++
        (v, vkids.width) :: (vkids.preorder ++ (listing rest ++ after)) := by
  simp [listing, preorder, width]

/-- The subtree of a member's value ends where the next member starts. -/
theorem Lists.next_member (h : Lists r f) {before after : List (JsonNode × Nat)} {n v : JsonNode}
    {vkids : Forest JsonNode} {rest : List (JsonNode × Forest JsonNode)}
    (hf : f.preorder = before ++ (listing ((n, snoc nil v vkids) :: rest) ++ after)) :
    ∃ next, f.preorder = next ++ (listing rest ++ after) ∧
      next.length = before.length + 1 + 1 + vkids.count ∧
      (rest ≠ [] → r.skip (some (before.length + 1)) = some next.length) := by
  have hvalue := hf.trans (listing_member before after n v vkids rest)
  have hlen : (before ++ (n, 1) :: (v, vkids.width) :: vkids.preorder).length =
      before.length + 1 + 1 + vkids.count := by
    simp only [List.length_append, List.length_cons, length_preorder]
    omega
  refine ⟨before ++ (n, 1) :: (v, vkids.width) :: vkids.preorder, ?_, hlen, fun hrest => ?_⟩
  · rw [hvalue]
    simp
  · have hmore : listing rest ++ after ≠ [] := by
      cases rest with
      | nil => exact absurd rfl hrest
      | cons tree rest => simp [listing]
    have hskip := h.skip hvalue
    rwa [List.length_append, List.length_singleton, if_neg hmore, ← hlen] at hskip

/-- The loop of `find` over the trees that are left of an object's children. -/
theorem Lists.findLoop (h : Lists r f) (key : Bytes)
    (trees : List (JsonNode × Forest JsonNode)) {before after : List (JsonNode × Nat)}
    (hf : f.preorder = before ++ (listing trees ++ after)) :
    r.findLoop key trees.length (some before.length) = r.findTrees key trees before.length := by
  induction trees generalizing before with
  | nil => rfl
  | cons tree rest ih =>
    obtain ⟨n, kids⟩ := tree
    have hhead : f.preorder =
        before ++ (n, kids.width) :: (kids.preorder ++ (listing rest ++ after)) := by
      rw [hf]
      simp [listing]
    have hcount : r.count =
        before.length + 1 + kids.count + (listing rest).length + after.length := by
      rw [h.count, ← length_preorder, hhead]
      simp only [List.length_append, List.length_cons, length_preorder]
      omega
    unfold findTrees
    show (if before.length + 1 < r.count then _ else none) = _
    rw [h.getElem? hhead]
    dsimp only
    by_cases hwidth : kids.width = 1
    · obtain ⟨v, vkids, rfl⟩ := eq_snoc_of_width hwidth
      simp only [Forest.count] at hcount
      have hsize : n.token (snoc nil v vkids).width = n.token 1 := by rw [hwidth]
      have hone : ¬ (n.token 1).size ≠ 1 := not_not.mpr rfl
      rw [if_pos (by omega), if_neg (not_not.mpr hwidth), hsize, if_neg hone]
      split_ifs
      · rfl
      · obtain ⟨next, hnext, hlen, hskip⟩ := h.next_member hf
        cases rest with
        | nil => rfl
        | cons tree rest =>
          have hloop := ih hnext
          rw [hskip (List.cons_ne_nil _ _), hloop, hlen]
          congr 1
          simp only [Forest.count]
          omega
    · have hsize : (n.token kids.width).size ≠ 1 := hwidth
      rw [if_pos hwidth, if_pos hsize]
      split_ifs <;> rfl

/-- **`find` goes through the children of the object.** -/
theorem Lists.find (h : Lists r f) {before after : List (JsonNode × Nat)} {n : JsonNode}
    {kids : Forest JsonNode}
    (hf : f.preorder = before ++ (n, kids.width) :: (kids.preorder ++ after)) (key : Bytes) :
    r.find (some before.length) key =
      if n.type = .object then r.findTrees key kids.trees (before.length + 1) else none := by
  have htok := h.token? hf
  have hobj : r.isObject (some before.length) = decide (n.type = .object) := by
    unfold JsonReader.isObject
    rw [htok]
    rfl
  have hchildren : r.childCount (some before.length) = kids.trees.length := by
    unfold JsonReader.childCount
    rw [htok, length_trees]
    rfl
  unfold JsonReader.find
  dsimp only
  rw [hobj, hchildren]
  by_cases htype : n.type = .object
  · rw [if_pos (by simpa using htype), if_pos htype]
    have hmembers : f.preorder =
        (before ++ [(n, kids.width)]) ++ (listing kids.trees ++ after) := by
      rw [hf, preorder_eq_flatMap_trees kids]
      simp [listing]
    have hloop := h.findLoop key kids.trees hmembers
    rwa [List.length_append, List.length_singleton] at hloop
  · rw [if_neg (by simpa using htype), if_neg htype]

/-- What `find` returns is a token among the children's, and the one before it is a string
equal to the key. -/
theorem findTrees_spec (h : Lists r f) {key : Bytes}
    {trees : List (JsonNode × Forest JsonNode)} {before after : List (JsonNode × Nat)} {i : Nat}
    (hf : f.preorder = before ++ (listing trees ++ after))
    (hfind : r.findTrees key trees before.length = some i) :
    before.length < i ∧ i < before.length + (listing trees).length ∧
      ∃ t, r.tokens[i - 1]? = some t ∧ r.keyEquals t key = true := by
  induction trees generalizing before with
  | nil => cases hfind
  | cons tree rest ih =>
    obtain ⟨n, kids⟩ := tree
    have hhead : f.preorder =
        before ++ (n, kids.width) :: (kids.preorder ++ (listing rest ++ after)) := by
      rw [hf]
      simp [listing]
    have hlen : (listing ((n, kids) :: rest)).length = 1 + kids.count + (listing rest).length := by
      simp [listing]
      omega
    have hkids := kids.width_le_count
    unfold findTrees at hfind
    split_ifs at hfind with hwidth hkey
    · cases hfind
      have hone : kids.width = 1 := not_not.mp hwidth
      refine ⟨Nat.lt_succ_self _, by omega, n.token 1, ?_, hkey⟩
      rw [Nat.add_sub_cancel, h.getElem? hhead, hone]
    · have hnext : f.preorder = (before ++ (n, kids.width) :: kids.preorder) ++
          (listing rest ++ after) := by
        rw [hhead]
        simp
      have hpos : (before ++ (n, kids.width) :: kids.preorder).length =
          before.length + 1 + kids.count := by
        simp only [List.length_append, List.length_cons, length_preorder]
        omega
      obtain ⟨hlt, hle, ht⟩ := ih hnext (hpos ▸ hfind)
      exact ⟨by omega, by omega, ht⟩

end JsonReader

end SoulCloud
