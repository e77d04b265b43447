import SoulCloud.Json.Document

/-!
# Looking things up in a well-formed document

For a JSON text whose root is an object, the tokens are exactly the nodes of its syntax tree
in pre-order, and the lookup functions answer as the syntax tree does.

- `built_document`: the tree that a document builds.
- `HasTree`, `HasText`: where a subtree lies in a listing, and its text in the document.
- `Document.hasPart`: every node of the document has its token and its text.
- `parse_wellFormed`: what `parse` returns, and what every lookup then finds.
-/

namespace SoulCloud

open Forest Json

/-! ## The tree of a document -/

mutual

theorem count_childrenOf : ∀ (v : Value) (pos : Nat), (childrenOf v pos).count + 1 = v.count
  | .object members, pos => by
    have h := count_membersInto members nil true (pos + 1)
    simp only [childrenOf, Value.count, h, Forest.count]
    omega
  | .array elements, pos => by
    have h := count_elementsInto elements nil true (pos + 1)
    simp only [childrenOf, Value.count, h, Forest.count]
    omega
  | .string _, _ | .number _, _ | .literal _, _ => rfl

theorem count_membersInto : ∀ (ms : Members) (f : Forest JsonNode) (first : Bool) (pos : Nat),
    (membersInto ms f first pos).count = f.count + ms.count
  | .nil _, _, _, _ => rfl
  | .cons lead key beforeColon afterColon value trail rest, f, first, pos => by
    have hvalue := count_childrenOf value
      (valuePos (keyPos first pos lead) key beforeColon afterColon)
    simp only [membersInto, count_membersInto rest, Members.count, Forest.count]
    omega

theorem count_elementsInto : ∀ (es : Elements) (f : Forest JsonNode) (first : Bool) (pos : Nat),
    (elementsInto es f first pos).count = f.count + es.count
  | .nil _, _, _, _ => rfl
  | .cons lead value trail rest, f, first, pos => by
    have hvalue := count_childrenOf value (keyPos first pos lead)
    simp only [elementsInto, count_elementsInto rest, Elements.count, Forest.count]
    omega

end

/-- The forest of a document: the tree of its root. -/
def documentForest (d : Document) : Forest JsonNode :=
  snoc nil (nodeOf d.root d.lead.bytes.length) (childrenOf d.root d.lead.bytes.length)

theorem count_documentForest (d : Document) : (documentForest d).count = d.count := by
  have h := count_childrenOf d.root d.lead.bytes.length
  simp only [documentForest, Forest.count, Document.count]
  omega

/-- **A document builds the tree of its root.** -/
theorem built_document (d : Document) : built d.bytes = some ⟨[], documentForest d⟩ := by
  have hbytes : d.bytes =
      d.lead.bytes ++ (123 :: (d.members.bytes true ++ [125]) ++ (d.trail.bytes ++ [])) := by
    simp [Document.bytes, Document.root, Value.bytes]
  have hfeed : built d.bytes = feed d.bytes 0 Zipper.empty := rfl
  obtain ⟨z', hmembers, hunder⟩ := feed_members d.members true (125 :: (d.trail.bytes ++ []))
    (d.lead.bytes.length + 1) (Zipper.empty.push ⟨.object, (d.lead.bytes.length : Nat), -1⟩) nil
    ⟨.object, (d.lead.bytes.length : Nat), -1⟩ [] nil (isOpen_opening .object _) rfl (.inl rfl)
    (fun _ => rfl) ⟨125, _, rfl, by decide⟩
  rw [hfeed, hbytes, feed_ws, Nat.zero_add,
    feed_container .object (by decide) (by decide) (by decide) rfl hmembers hunder, feed_ws,
    feed_nil]
  rfl

/-! ## Places -/

/-- The node `n` with `kids` below it is at index `i` of the listing of `f`. -/
def HasTree (f : Forest JsonNode) (i : Nat) (n : JsonNode) (kids : Forest JsonNode) : Prop :=
  ∃ before after, before.length = i ∧
    f.preorder = before ++ (n, kids.width) :: (kids.preorder ++ after)

/-- The trees are listed from index `i` of the listing of `f` on. -/
def HasTrees (f : Forest JsonNode) (i : Nat) (trees : List (JsonNode × Forest JsonNode)) : Prop :=
  ∃ before after, before.length = i ∧
    f.preorder = before ++ (JsonReader.listing trees ++ after)

/-- The text `t` is at `pos` of `json`. -/
def HasText (json : Bytes) (pos : Nat) (t : Bytes) : Prop :=
  ∃ before after, before.length = pos ∧ json = before ++ (t ++ after)

variable {f : Forest JsonNode} {json : Bytes} {i pos : Nat}

theorem HasTree.trees {n : JsonNode} {kids : Forest JsonNode} (h : HasTree f i n kids) :
    HasTrees f (i + 1) kids.trees := by
  obtain ⟨before, after, rfl, hf⟩ := h
  refine ⟨before ++ [(n, kids.width)], after, by simp, ?_⟩
  rw [hf, preorder_eq_flatMap_trees kids]
  simp [JsonReader.listing]

theorem HasTrees.head {n : JsonNode} {kids : Forest JsonNode}
    {rest : List (JsonNode × Forest JsonNode)} (h : HasTrees f i ((n, kids) :: rest)) :
    HasTree f i n kids := by
  obtain ⟨before, after, rfl, hf⟩ := h
  refine ⟨before, JsonReader.listing rest ++ after, rfl, ?_⟩
  rw [hf]
  simp [JsonReader.listing]

theorem HasTrees.tail {n : JsonNode} {kids : Forest JsonNode}
    {rest : List (JsonNode × Forest JsonNode)} (h : HasTrees f i ((n, kids) :: rest)) :
    HasTrees f (i + 1 + kids.count) rest := by
  obtain ⟨before, after, rfl, hf⟩ := h
  refine ⟨before ++ (n, kids.width) :: kids.preorder, after, ?_, ?_⟩
  · simp only [List.length_append, List.length_cons, length_preorder]
    omega
  · rw [hf]
    simp [JsonReader.listing]

theorem HasText.left {t u : Bytes} (h : HasText json pos (t ++ u)) : HasText json pos t := by
  obtain ⟨before, after, hlen, hjson⟩ := h
  exact ⟨before, u ++ after, hlen, by rw [hjson, List.append_assoc]⟩

theorem HasText.right {t u : Bytes} (h : HasText json pos (t ++ u)) :
    HasText json (pos + t.length) u := by
  obtain ⟨before, after, rfl, hjson⟩ := h
  exact ⟨before ++ t, after, by rw [List.length_append], by rw [hjson]; simp⟩

/-- The text at a place is what the reader takes from there. -/
theorem HasText.slice {r : JsonReader} {t : Bytes} (h : HasText r.json pos t) :
    r.slice (pos : Nat) (pos + t.length : Nat) = t := by
  obtain ⟨before, after, rfl, hjson⟩ := h
  unfold JsonReader.slice
  rw [hjson, Int.toNat_natCast, Int.toNat_natCast, ← List.append_assoc, ← List.length_append,
    List.take_left, List.drop_left]

/-! ## The nodes of a document -/

/-- The trees of members, from the first to the last. -/
def memberTrees : Members → Bool → Nat → List (JsonNode × Forest JsonNode)
  | .nil _, _, _ => []
  | .cons lead key beforeColon afterColon value trail rest, first, pos =>
    let keyPos := keyPos first pos lead
    let valuePos := valuePos keyPos key beforeColon afterColon
    (strNode key keyPos, snoc nil (nodeOf value valuePos) (childrenOf value valuePos)) ::
      memberTrees rest false (nextPos valuePos value trail)

def elementTrees : Elements → Bool → Nat → List (JsonNode × Forest JsonNode)
  | .nil _, _, _ => []
  | .cons lead value trail rest, first, pos =>
    let valuePos := keyPos first pos lead
    (nodeOf value valuePos, childrenOf value valuePos) ::
      elementTrees rest false (nextPos valuePos value trail)

theorem trees_membersInto (ms : Members) (f : Forest JsonNode) (first : Bool) (pos : Nat) :
    (membersInto ms f first pos).trees = f.trees ++ memberTrees ms first pos := by
  match ms with
  | .nil _ => simp [membersInto, memberTrees]
  | .cons _ _ _ _ _ _ rest =>
    simp [membersInto, memberTrees, trees_membersInto rest, trees]

theorem trees_elementsInto (es : Elements) (f : Forest JsonNode) (first : Bool) (pos : Nat) :
    (elementsInto es f first pos).trees = f.trees ++ elementTrees es first pos := by
  match es with
  | .nil _ => simp [elementsInto, elementTrees]
  | .cons _ _ _ rest =>
    simp [elementsInto, elementTrees, trees_elementsInto rest, trees]

/-- A value at index `i` whose text is at `pos`. -/
structure HasValue (f : Forest JsonNode) (json : Bytes) (i pos : Nat) (v : Value) : Prop where
  tree : HasTree f i (nodeOf v pos) (childrenOf v pos)
  text : HasText json pos v.bytes

/-- Members whose first key is at index `i`, and whose text is at `pos`. -/
structure HasMembers (f : Forest JsonNode) (json : Bytes) (i pos : Nat) (first : Bool)
    (ms : Members) : Prop where
  trees : HasTrees f i (memberTrees ms first pos)
  text : HasText json pos (ms.bytes first)

structure HasElements (f : Forest JsonNode) (json : Bytes) (i pos : Nat) (first : Bool)
    (es : Elements) : Prop where
  trees : HasTrees f i (elementTrees es first pos)
  text : HasText json pos (es.bytes first)

theorem HasValue.members {ms : Members} (h : HasValue f json i pos (.object ms)) :
    HasMembers f json (i + 1) (pos + 1) true ms := by
  constructor
  · have htrees := h.tree.trees
    rwa [childrenOf, trees_membersInto] at htrees
  · have htext : HasText json pos ([123] ++ (ms.bytes true ++ [125])) := h.text
    exact htext.right.left

theorem HasValue.elements {es : Elements} (h : HasValue f json i pos (.array es)) :
    HasElements f json (i + 1) (pos + 1) true es := by
  constructor
  · have htrees := h.tree.trees
    rwa [childrenOf, trees_elementsInto] at htrees
  · have htext : HasText json pos ([91] ++ (es.bytes true ++ [93])) := h.text
    exact htext.right.left

section Cons

variable {first : Bool} {lead : Ws} {key : Str} {beforeColon afterColon : Ws} {value : Value}
  {trail : Ws}

/-- The key of the first member. -/
theorem HasMembers.headKey {rest : Members}
    (h : HasMembers f json i pos first
      (.cons lead key beforeColon afterColon value trail rest)) :
    (∃ vn vkids, HasTree f i (strNode key (keyPos first pos lead)) (snoc nil vn vkids) ∧
      vkids.count + 1 = value.count) ∧
    HasText json (keyPos first pos lead) (quoted key) := by
  constructor
  · exact ⟨_, _, h.trees.head, count_childrenOf value _⟩
  · have htext := h.text
    simp only [Members.bytes, List.append_assoc] at htext
    have hkey := htext.right.right.left
    rwa [keyPos]

theorem HasMembers.headValue {rest : Members}
    (h : HasMembers f json i pos first
      (.cons lead key beforeColon afterColon value trail rest)) :
    HasValue f json (i + 1) (valuePos (keyPos first pos lead) key beforeColon afterColon)
      value := by
  constructor
  · exact h.trees.head.trees.head
  · have htext := h.text
    simp only [Members.bytes, List.append_assoc] at htext
    have hvalue := htext.right.right.right.right.right.right.left
    rwa [valuePos, keyPos]

theorem HasMembers.tail {rest : Members}
    (h : HasMembers f json i pos first
      (.cons lead key beforeColon afterColon value trail rest)) :
    HasMembers f json (i + 1 + value.count)
      (nextPos (valuePos (keyPos first pos lead) key beforeColon afterColon) value trail) false
      rest := by
  constructor
  · have htail := h.trees.tail
    have hcount := count_childrenOf value
      (valuePos (keyPos first pos lead) key beforeColon afterColon)
    rwa [Forest.count, Forest.count, Nat.zero_add, Nat.add_comm 1, hcount] at htail
  · have htext := h.text
    simp only [Members.bytes, List.append_assoc] at htext
    have hrest := htext.right.right.right.right.right.right.right.right
    rwa [nextPos, valuePos, keyPos]

theorem HasElements.headValue {rest : Elements}
    (h : HasElements f json i pos first (.cons lead value trail rest)) :
    HasValue f json i (keyPos first pos lead) value := by
  constructor
  · exact h.trees.head
  · have htext := h.text
    simp only [Elements.bytes, List.append_assoc] at htext
    have hvalue := htext.right.right.left
    rwa [keyPos]

theorem HasElements.tail {rest : Elements}
    (h : HasElements f json i pos first (.cons lead value trail rest)) :
    HasElements f json (i + value.count) (nextPos (keyPos first pos lead) value trail) false
      rest := by
  constructor
  · have htail := h.trees.tail
    have hcount := count_childrenOf value (keyPos first pos lead)
    rwa [Nat.add_assoc, Nat.add_comm 1, hcount] at htail
  · have htext := h.text
    simp only [Elements.bytes, List.append_assoc] at htext
    have hrest := htext.right.right.right.right
    rwa [nextPos, keyPos]

end Cons

/-- A node of the document: a value, or a key with its value below it. -/
def HasPart (f : Forest JsonNode) (json : Bytes) (i pos : Nat) : Part → Prop
  | .value v => HasValue f json i pos v
  | .key s v =>
    (∃ vn vkids, HasTree f i (strNode s pos) (snoc nil vn vkids) ∧ vkids.count + 1 = v.count) ∧
      HasText json pos (quoted s)

mutual

/-- **Every node of a value has its subtree and its text.** -/
theorem HasValue.part : ∀ {v : Value} {f : Forest JsonNode} {json : Bytes} {i pos : Nat} {j : Nat}
    {part : Part} {p : Nat}, HasValue f json i pos v → v.at? pos j = some (part, p) →
    HasPart f json (i + j) p part
  | v, _, _, _, _, 0, _, _, h, hat => by
    cases v <;> (cases hat; exact h)
  | .object _, _, _, i, _, j + 1, _, _, h, hat => by
    rw [Nat.add_comm j, ← Nat.add_assoc]
    exact h.members.part hat
  | .array _, _, _, i, _, j + 1, _, _, h, hat => by
    rw [Nat.add_comm j, ← Nat.add_assoc]
    exact h.elements.part hat
  | .string _, _, _, _, _, _ + 1, _, _, _, hat => by cases hat
  | .number _, _, _, _, _, _ + 1, _, _, _, hat => by cases hat
  | .literal _, _, _, _, _, _ + 1, _, _, _, hat => by cases hat

theorem HasMembers.part : ∀ {ms : Members} {f : Forest JsonNode} {json : Bytes} {i pos : Nat}
    {first : Bool} {j : Nat} {part : Part} {p : Nat}, HasMembers f json i pos first ms →
    ms.at? first pos j = some (part, p) → HasPart f json (i + j) p part
  | .nil _, _, _, _, _, _, _, _, _, _, hat => by cases hat
  | .cons _ _ _ _ _ _ _, _, _, _, _, _, 0, _, _, h, hat => by
    cases hat
    exact h.headKey
  | .cons _ _ _ _ value _ _, _, _, i, _, _, j + 1, _, _, h, hat => by
    simp only [Members.at?] at hat
    by_cases hj : j < value.count
    · rw [if_pos hj] at hat
      rw [Nat.add_comm j, ← Nat.add_assoc]
      exact h.headValue.part hat
    · rw [if_neg hj] at hat
      have hpart := h.tail.part hat
      rwa [show i + 1 + value.count + (j - value.count) = i + (j + 1) by omega] at hpart

theorem HasElements.part : ∀ {es : Elements} {f : Forest JsonNode} {json : Bytes} {i pos : Nat}
    {first : Bool} {j : Nat} {part : Part} {p : Nat}, HasElements f json i pos first es →
    es.at? first pos j = some (part, p) → HasPart f json (i + j) p part
  | .nil _, _, _, _, _, _, _, _, _, _, hat => by cases hat
  | .cons _ value _ _, _, _, i, _, _, j, _, _, h, hat => by
    simp only [Elements.at?] at hat
    by_cases hj : j < value.count
    · rw [if_pos hj] at hat
      exact h.headValue.part hat
    · rw [if_neg hj] at hat
      have hpart := h.tail.part hat
      rwa [show i + value.count + (j - value.count) = i + j by omega] at hpart

end

mutual

theorem Value.exists_at? : ∀ {v : Value} {pos j : Nat}, j < v.count →
    ∃ part p, v.at? pos j = some (part, p)
  | v, _, 0, _ => by
    cases v <;> exact ⟨_, _, rfl⟩
  | .object _, _, j + 1, h => Members.exists_at? (by simpa [Value.count] using h)
  | .array _, _, j + 1, h => Elements.exists_at? (by simpa [Value.count] using h)
  | .string _, _, _ + 1, h => by simp [Value.count] at h
  | .number _, _, _ + 1, h => by simp [Value.count] at h
  | .literal _, _, _ + 1, h => by simp [Value.count] at h

theorem Members.exists_at? : ∀ {ms : Members} {first : Bool} {pos j : Nat}, j < ms.count →
    ∃ part p, ms.at? first pos j = some (part, p)
  | .nil _, _, _, _, h => by cases h
  | .cons _ _ _ _ _ _ _, _, _, 0, _ => ⟨_, _, rfl⟩
  | .cons _ _ _ _ value _ rest, _, _, j + 1, h => by
    simp only [Members.at?]
    by_cases hj : j < value.count
    · rw [if_pos hj]
      exact Value.exists_at? hj
    · rw [if_neg hj]
      refine Members.exists_at? ?_
      simp only [Members.count] at h
      omega

theorem Elements.exists_at? : ∀ {es : Elements} {first : Bool} {pos j : Nat}, j < es.count →
    ∃ part p, es.at? first pos j = some (part, p)
  | .nil _, _, _, _, h => by cases h
  | .cons _ value _ rest, _, _, j, h => by
    simp only [Elements.at?]
    by_cases hj : j < value.count
    · rw [if_pos hj]
      exact Value.exists_at? hj
    · rw [if_neg hj]
      refine Elements.exists_at? ?_
      simp only [Elements.count] at h
      omega

end

/-! ## Lookups -/

namespace JsonReader

variable {r : JsonReader} {f : Forest JsonNode} {i pos : Nat} {n : JsonNode}
  {kids : Forest JsonNode}

theorem Lists.token_of (h : Lists r f) (ht : HasTree f i n kids) :
    r.tokens[i]? = some (n.token kids.width) := by
  obtain ⟨before, after, rfl, hf⟩ := ht
  exact h.getElem? hf

theorem Lists.token?_of (h : Lists r f) (ht : HasTree f i n kids) :
    r.token? (some i) = some (n.token kids.width) := by
  obtain ⟨before, after, rfl, hf⟩ := ht
  exact h.token? hf

theorem Lists.childCount_of (h : Lists r f) (ht : HasTree f i n kids) :
    r.childCount (some i) = kids.width := by
  unfold JsonReader.childCount
  rw [h.token?_of ht]
  rfl

theorem Lists.skip_of (h : Lists r f) (ht : HasTree f i n kids) :
    r.skip (some i) =
      if i + (kids.count + 1) < r.count then some (i + (kids.count + 1)) else none := by
  obtain ⟨before, after, rfl, hf⟩ := ht
  have hcount : r.count = before.length + (kids.count + 1) + after.length := by
    rw [h.count, ← length_preorder, hf]
    simp only [List.length_append, List.length_cons, length_preorder]
    omega
  rw [h.skip hf]
  cases after with
  | nil => rw [if_pos rfl, if_neg (by simp only [List.length_nil] at hcount; omega)]
  | cons entry after =>
    rw [if_neg (List.cons_ne_nil _ _), if_pos (by simp only [List.length_cons] at hcount; omega)]
    congr 1
    omega

theorem Lists.find_of (h : Lists r f) (ht : HasTree f i n kids) (hn : n.type = .object)
    (key : Bytes) : r.find (some i) key = r.findTrees key kids.trees (i + 1) := by
  obtain ⟨before, after, rfl, hf⟩ := ht
  rw [h.find hf, if_pos hn]

/-- A key in the text compares as it is spelled. -/
theorem keyEquals_strNode {s : Str} (h : HasText r.json pos (quoted s)) (size : Nat)
    (key : Bytes) : r.keyEquals ((strNode s pos).token size) key = decide (spelled s = key) := by
  have htext : HasText r.json pos ([34] ++ (spelled s ++ [34])) := h
  have hslice := htext.right.left.slice
  rw [List.length_singleton] at hslice
  unfold keyEquals strNode JsonNode.token
  dsimp only
  rw [hslice]
  by_cases heq : spelled s = key
  · subst heq
    simp
  · simp [heq]

/-- `find` among members is the search for the key in the syntax tree. -/
theorem findTrees_members (ms : Members) {first : Bool} {pos : Nat}
    (h : HasText r.json pos (ms.bytes first)) (key : Bytes) (i : Nat) :
    r.findTrees key (memberTrees ms first pos) i = (ms.find? key).map (i + ·) := by
  match ms with
  | .nil _ => rfl
  | .cons lead k beforeColon afterColon value trail rest =>
    simp only [Members.bytes, List.append_assoc] at h
    have hkey := h.right.right.left
    have hrest := h.right.right.right.right.right.right.right.right
    have hone : ∀ n kids, (snoc nil n kids : Forest JsonNode).width = 1 := fun _ _ => rfl
    unfold memberTrees findTrees Members.find?
    rw [hone, if_neg (not_not.mpr rfl), keyEquals_strNode (by rwa [keyPos]),
      findTrees_members rest (by rwa [nextPos, valuePos, keyPos])]
    have hcount := count_childrenOf value
      (valuePos (keyPos first pos lead) k beforeColon afterColon)
    by_cases heq : spelled k = key
    · rw [if_pos (by simpa using heq), if_pos heq]
      rfl
    · rw [if_neg (by simpa using heq), if_neg heq]
      cases rest.find? key with
      | none => rfl
      | some j =>
        simp only [Option.map_some, Forest.count]
        congr 1
        omega

/-- `find` in an object is the search for the key in the syntax tree. -/
theorem Lists.find_object (h : Lists r f) {ms : Members}
    (hv : HasValue f r.json i pos (.object ms)) (key : Bytes) :
    r.find (some i) key = (ms.find? key).map (i + 1 + ·) := by
  rw [h.find_of hv.tree rfl, childrenOf, trees_membersInto]
  exact findTrees_members ms hv.members.text key (i + 1)

end JsonReader

/-- The node of a part that starts at `pos`. -/
def partNode : Part → Nat → JsonNode
  | .value v, pos => nodeOf v pos
  | .key s _, pos => strNode s pos

theorem length_memberTrees (ms : Members) (first : Bool) (pos : Nat) :
    (memberTrees ms first pos).length = ms.length := by
  match ms with
  | .nil _ => rfl
  | .cons _ _ _ _ _ _ rest => simp [memberTrees, Members.length, length_memberTrees rest]

theorem length_elementTrees (es : Elements) (first : Bool) (pos : Nat) :
    (elementTrees es first pos).length = es.length := by
  match es with
  | .nil _ => rfl
  | .cons _ _ _ rest => simp [elementTrees, Elements.length, length_elementTrees rest]

theorem width_childrenOf (v : Value) (pos : Nat) :
    (childrenOf v pos).width = (Part.value v).childCount := by
  cases v with
  | object ms =>
    rw [childrenOf, ← length_trees, trees_membersInto]
    exact length_memberTrees ms _ _
  | array es =>
    rw [childrenOf, ← length_trees, trees_elementsInto]
    exact length_elementTrees es _ _
  | string s => rfl
  | number n => rfl
  | literal l => rfl

/-- A part's subtree has as many children and nodes as the part. -/
theorem HasPart.tree {part : Part} (h : HasPart f json i pos part) :
    ∃ kids, HasTree f i (partNode part pos) kids ∧ kids.width = part.childCount ∧
      kids.count + 1 = part.count := by
  cases part with
  | key s v =>
    obtain ⟨⟨vn, vkids, htree, hcount⟩, -⟩ := h
    refine ⟨_, htree, ?_, ?_⟩
    · rfl
    · simp only [Forest.count, Part.count]
      omega
  | value v =>
    have hvalue : HasValue f json i pos v := h
    exact ⟨_, hvalue.tree, width_childrenOf v pos, count_childrenOf v pos⟩

theorem Document.hasRoot (d : Document) :
    HasValue (documentForest d) d.bytes 0 d.lead.bytes.length d.root := by
  constructor
  · exact ⟨[], [], rfl, by simp [documentForest, preorder, childrenOf, Document.root]⟩
  · exact ⟨d.lead.bytes, d.trail.bytes, rfl, by rw [Document.bytes, List.append_assoc]⟩

/-- **Every node of a document has its subtree and its text.** -/
theorem Document.hasPart {d : Document} {part : Part} (h : d.at? i = some (part, pos)) :
    HasPart (documentForest d) d.bytes i pos part := by
  have hpart := (Document.hasRoot d).part h
  rwa [Nat.zero_add] at hpart

/-! ## Parsing a document -/

/-- The reader answers every question about the document as its syntax tree does. -/
structure Reads (r : JsonReader) (d : Document) : Prop where
  count : r.count = d.count
  json : r.json = d.bytes
  /-- The tokens are the nodes in pre-order. -/
  token : ∀ i < d.count, ∃ part pos, d.at? i = some (part, pos) ∧
    r.tokens[i]? = some ((partNode part pos).token part.childCount)
  childCount : ∀ i part pos, d.at? i = some (part, pos) → r.childCount (some i) = part.childCount
  skip : ∀ i part pos, d.at? i = some (part, pos) →
    r.skip (some i) = if i + part.count < d.count then some (i + part.count) else none
  find : ∀ i members pos key, d.at? i = some (.value (.object members), pos) →
    match members.lookup? key with
    | none => r.find (some i) key = none
    | some v => ∃ j p, r.find (some i) key = some (i + 1 + j) ∧
        members.find? key = some j ∧ d.at? (i + 1 + j) = some (.value v, p)

theorem Document.exists_at? {d : Document} (h : i < d.count) :
    ∃ part p, d.at? i = some (part, p) := Value.exists_at? h

/-- A reader that lists the tree of a document reads it. -/
theorem JsonReader.Lists.reads {r : JsonReader} {d : Document} (h : Lists r (documentForest d))
    (hjson : r.json = d.bytes) : Reads r d := by
  have hcount : r.count = d.count := by rw [h.count, count_documentForest]
  refine ⟨hcount, hjson, ?_, ?_, ?_, ?_⟩
  · intro i hi
    obtain ⟨part, pos, hat⟩ := Document.exists_at? hi
    obtain ⟨kids, htree, hwidth, -⟩ := (Document.hasPart hat).tree
    exact ⟨part, pos, hat, hwidth ▸ h.token_of htree⟩
  · intro i part pos hat
    obtain ⟨kids, htree, hwidth, -⟩ := (Document.hasPart hat).tree
    rw [h.childCount_of htree, hwidth]
  · intro i part pos hat
    obtain ⟨kids, htree, -, hsize⟩ := (Document.hasPart hat).tree
    rw [h.skip_of htree, hsize, hcount]
  · intro i members pos key hat
    have hvalue : HasValue (documentForest d) r.json i pos (.object members) :=
      hjson ▸ Document.hasPart hat
    have hfind := h.find_object hvalue key
    have hfound := members.at?_find? key true (pos + 1)
    cases hkey : members.find? key with
    | none =>
      rw [hkey] at hfind hfound
      rw [hfound]
      exact hfind
    | some j =>
      rw [hkey] at hfind hfound
      obtain ⟨v, p, hlookup, hj, hlt⟩ := hfound
      rw [hlookup]
      refine ⟨j, p, hfind, rfl, ?_⟩
      have hbelow := Value.at?_add hat (Nat.succ_lt_succ hlt)
      rw [Nat.add_right_comm, Nat.add_assoc, ← hj]
      exact hbelow.1

namespace JsonReader

variable {r : JsonReader} {d : Document}

/-- A document whose nodes fit is accepted, and its tree is listed. -/
theorem parse_document_lists (hle : d.count ≤ r.maxTokens) :
    (r.parse d.bytes).1 = .ok ∧ Lists (r.parse d.bytes).2 (documentForest d) ∧
      (r.parse d.bytes).2.json = d.bytes := by
  have hparse := parse_built r d.bytes
  rw [built_document] at hparse
  have hle' : (documentForest d).count ≤ r.maxTokens := by rwa [count_documentForest]
  have hret := hparse.2.1 hle' rfl rfl
  rw [hret]
  exact ⟨rfl, ⟨rfl, TokenTree.length_tokens ⟨[], documentForest d⟩⟩, rfl⟩

theorem parse_document (hle : d.count ≤ r.maxTokens) :
    (r.parse d.bytes).1 = .ok ∧ Reads (r.parse d.bytes).2 d := by
  obtain ⟨hok, hlists, hjson⟩ := parse_document_lists hle
  exact ⟨hok, hlists.reads hjson⟩

theorem parse_document_full (hlt : r.maxTokens < d.count) : (r.parse d.bytes).1 = .noMem := by
  have hparse := parse_built r d.bytes
  rw [built_document] at hparse
  refine hparse.1 ?_
  show r.maxTokens < (documentForest d).count
  rwa [count_documentForest]

/-- **A well-formed text is accepted if its nodes fit, and every lookup is right.** For a
text of the grammar with an object at its root, `parse` returns `ESP_OK` when there is a
token for each node and `ESP_ERR_NO_MEM` when there is not. On `ESP_OK` the tokens are the
nodes in pre-order, `child_count` counts members or elements, `skip` goes past the whole
subtree, and `find` is the value of the first member whose key is spelled so. -/
theorem parse_wellFormed (r : JsonReader) (d : Document) :
    (d.count ≤ r.maxTokens → (r.parse d.bytes).1 = .ok ∧ Reads (r.parse d.bytes).2 d) ∧
      (r.maxTokens < d.count → (r.parse d.bytes).1 = .noMem) :=
  ⟨parse_document, parse_document_full⟩

end JsonReader

end SoulCloud
