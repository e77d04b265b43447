import SoulCloud.Json.Keys

/-!
# Members by what their keys stand for

A request names its members by strings, and a string can be spelled in many ways. `find` compares
spellings, and in a text that is accepted though it is no JSON it stops at the first member
without a value of its own.

- `objectChildren`: the children of a token, as the tree of the text has them.
- `NodeSpells`, `nodeMeaning`: what a string of the text stands for.
- `meant`: the value of the first member of the root whose key stands for a key.
- `reached`: the value of the first member whose key is spelled so, if none before it stops `find`.
- `find_reached`: **what `find` returns at the root is what it reaches**, with `getInt_reached` and
  `getStr_reached` for the readers.
-/

namespace SoulCloud

open Bytes Forest Json

/-! ## The tree of a text -/

/-- The children of a token of an accepted text. -/
def objectChildren (json : Bytes) (tok : Nat) : List (JsonNode × Forest JsonNode) :=
  match (built json).bind (·.forest.at? tok) with
  | some (_, kids) => kids.trees
  | none => []

/-- A string of the text and what it stands for. -/
def NodeSpells (json : Bytes) (n : JsonNode) (value : Bytes) : Prop :=
  n.type = .string ∧ JsonReader.Spells ((json.take n.stop.toNat).drop n.start.toNat) value

/-- The text of a node. -/
def nodeText (json : Bytes) (n : JsonNode) : Bytes := (json.take n.stop.toNat).drop n.start.toNat

/-- What a string of the text stands for. -/
def nodeMeaning (json : Bytes) (n : JsonNode) : Option Bytes :=
  if n.type = .string then JsonReader.unescape (nodeText json n).length (nodeText json n) else none

/-- The value of a member, if it has exactly one. -/
def ownValue (member : JsonNode × Forest JsonNode) : Option (JsonNode × Forest JsonNode) :=
  match member.2 with
  | .snoc .nil v vkids => some (v, vkids)
  | _ => none

/-- The value of the first member of the root whose key stands for `key`, however it is spelled. -/
def meant (json key : Bytes) : Option (JsonNode × Forest JsonNode) :=
  ((objectChildren json 0).find? fun member => nodeMeaning json member.1 == some key).bind ownValue

/-- The member's key is spelled `key`. -/
def spelledAs (json key : Bytes) (member : JsonNode × Forest JsonNode) : Bool :=
  member.1.type == .string && nodeText json member.1 == key

/-- The value of the first member of the root whose key is spelled `key`, if it comes before the
first member that does not have exactly one value. -/
def reached (json key : Bytes) : Option (JsonNode × Forest JsonNode) :=
  (((objectChildren json 0).takeWhile fun member => member.2.width == 1).find?
    (spelledAs json key)).bind ownValue

theorem ownValue_of_width {member : JsonNode × Forest JsonNode} (h : member.2.width = 1) :
    ∃ v vkids, member.2 = .snoc .nil v vkids ∧ ownValue member = some (v, vkids) := by
  obtain ⟨n, kids⟩ := member
  obtain ⟨v, vkids, rfl⟩ := JsonReader.eq_snoc_of_width h
  exact ⟨v, vkids, rfl, rfl⟩

namespace JsonReader

/-- A string has no escape that is longer than the text, so there is room for all it stands for. -/
theorem nodeMeaning_eq_some_iff {json value : Bytes} {n : JsonNode} :
    nodeMeaning json n = some value ↔ NodeSpells json n value := by
  unfold nodeMeaning NodeSpells
  by_cases htype : n.type = .string
  · rw [if_pos htype, unescape_eq_some_iff]
    constructor
    · rintro ⟨hspells, -⟩
      exact ⟨htype, hspells⟩
    · rintro ⟨-, hspells⟩
      exact ⟨hspells, hspells.length_lt.1⟩
  · rw [if_neg htype]
    exact ⟨nofun, fun h => absurd h.1 htype⟩

/-- A node that spells something spells one thing. -/
theorem nodeSpells_unique {json value value' : Bytes} {n : JsonNode}
    (h : NodeSpells json n value) (h' : NodeSpells json n value') : value = value' :=
  h.2.unique h'.2

/-! ## What `find` reaches -/

variable {r : JsonReader} {f : Forest JsonNode} {json : Bytes}

/-- `key_equals` compares spellings. -/
theorem keyEquals_iff_spelledAs {key : Bytes} {n : JsonNode} {kids : Forest JsonNode}
    (hin : 0 ≤ n.start ∧ n.start ≤ n.stop ∧ n.stop ≤ r.json.length) (size : Nat) :
    r.keyEquals (n.token size) key = spelledAs r.json key (n, kids) := by
  have hlength : ((nodeText r.json n).length : Int) = n.stop - n.start := by
    rw [nodeText, List.length_drop, List.length_take]
    omega
  have htext : r.slice n.start n.stop = nodeText r.json n := rfl
  rw [Bool.eq_iff_iff]
  simp only [keyEquals, spelledAs, JsonNode.token, htext, Bool.and_eq_true, beq_iff_eq]
  constructor
  · rintro ⟨⟨htype, -⟩, hkey⟩
    exact ⟨htype, hkey⟩
  · rintro ⟨htype, rfl⟩
    exact ⟨⟨htype, hlength.symm⟩, rfl⟩

/-- The search through the children of an object: it passes over members with one value and
another spelling. -/
theorem findTrees_reached {key : Bytes} {trees : List (JsonNode × Forest JsonNode)}
    (hin : ∀ tree ∈ trees, 0 ≤ tree.1.start ∧ tree.1.start ≤ tree.1.stop ∧
      tree.1.stop ≤ r.json.length) (i : Nat) :
    match (trees.takeWhile fun member => member.2.width == 1).find? (spelledAs r.json key) with
    | none => r.findTrees key trees i = none
    | some member =>
      ∃ before after, trees = before ++ member :: after ∧ member.2.width = 1 ∧
        r.findTrees key trees i = some (i + (listing before).length + 1) := by
  induction trees generalizing i with
  | nil => rfl
  | cons tree rest ih =>
    obtain ⟨n, kids⟩ := tree
    have hequals := @keyEquals_iff_spelledAs r key n kids (hin (n, kids) List.mem_cons_self) 1
    have ih := ih (fun tree htree => hin tree (List.mem_cons_of_mem _ htree)) (i + 1 + kids.count)
    unfold findTrees
    by_cases hwidth : kids.width = 1
    · have htake : ((n, kids) :: rest).takeWhile (fun member => member.2.width == 1) =
          (n, kids) :: rest.takeWhile fun member => member.2.width == 1 :=
        List.takeWhile_cons_of_pos (beq_iff_eq.mpr hwidth)
      rw [htake, if_neg (not_not.mpr hwidth), hequals]
      cases hspelled : spelledAs r.json key (n, kids) with
      | true =>
        rw [List.find?_cons_of_pos hspelled]
        exact ⟨[], rest, rfl, hwidth, rfl⟩
      | false =>
        rw [List.find?_cons_of_neg (Bool.eq_false_iff.mp hspelled), if_neg Bool.false_ne_true]
        cases hfound : (rest.takeWhile fun member => member.2.width == 1).find?
            (spelledAs r.json key) with
        | none =>
          rw [hfound] at ih
          exact ih
        | some member =>
          rw [hfound] at ih
          obtain ⟨before, after, hrest, hone, hfind⟩ := ih
          refine ⟨(n, kids) :: before, after, congrArg _ hrest, hone, hfind.trans ?_⟩
          have hlen : (listing ((n, kids) :: before)).length =
              1 + kids.count + (listing before).length := by
            simp [listing]
            omega
          rw [hlen]
          congr 1
          omega
    · have htake : ((n, kids) :: rest).takeWhile (fun member => member.2.width == 1) = [] :=
        List.takeWhile_cons_of_neg (mt beq_iff_eq.mp hwidth)
      rw [htake, if_pos hwidth]
      rfl

/-- **What `find` returns at the root** is the value of the member that it reaches. -/
theorem find_reached (hok : (r.parse json).1 = .ok) (key : Bytes) :
    match reached json key with
    | none => (r.parse json).2.find (some 0) key = none
    | some v =>
      ∃ z i, built json = some z ∧ Lists (r.parse json).2 z.forest ∧
        (r.parse json).2.find (some 0) key = some i ∧ z.forest.at? i = some v := by
  obtain ⟨z, hz, -, hcomplete, hfirst, hlists, hjson⟩ := parse_lists hok
  obtain ⟨n, kids, hat, htype⟩ : ∃ n kids, z.forest.at? 0 = some (n, kids) ∧ n.type = .object := by
    obtain ⟨n, hn, htype⟩ := Option.map_eq_some_iff.mp hfirst
    have hpos : 0 < z.forest.count := by
      rw [← length_preorder, ← List.length_map (f := Prod.fst)]
      exact List.length_pos_of_mem (List.mem_of_mem_head? hn)
    obtain ⟨⟨m, kids⟩, hat⟩ := at?_of_lt hpos
    obtain ⟨before, after, hlen, hf⟩ := preorder_of_at? hat
    obtain rfl := List.length_eq_zero_iff.mp hlen
    rw [labels, hf] at hn
    cases hn
    exact ⟨_, kids, hat, htype⟩
  have hchildren : objectChildren json 0 = kids.trees := by
    rw [objectChildren, hz, Option.bind_some, hat]
  obtain ⟨before, after, hlen, hf⟩ := preorder_of_at? hat
  obtain rfl := List.length_eq_zero_iff.mp hlen
  have hfind := hlists.find hf key
  rw [if_pos htype] at hfind
  have hplace : ∀ {before after tree}, kids.trees = before ++ tree :: after →
      z.forest.at? (0 + 1 + (listing before).length) = some tree :=
    fun htrees => at?_child hat (at?_of_trees htrees)
  have hin : ∀ tree ∈ kids.trees, 0 ≤ tree.1.start ∧ tree.1.start ≤ tree.1.stop ∧
      tree.1.stop ≤ (r.parse json).2.json.length := by
    intro tree htree
    obtain ⟨before, after, htrees⟩ := List.append_of_mem htree
    rw [hjson]
    exact built_within hz hcomplete tree.1 (mem_labels_of_at? (hplace htrees))
  have hsearch := @findTrees_reached (r.parse json).2 key kids.trees hin 1
  rw [reached, hchildren]
  rw [hjson] at hsearch
  cases hfound : (kids.trees.takeWhile fun member => member.2.width == 1).find?
      (spelledAs json key) with
  | none =>
    rw [hfound] at hsearch
    exact hfind.trans hsearch
  | some member =>
    rw [hfound] at hsearch
    obtain ⟨before, after, htrees, hone, htok⟩ := hsearch
    obtain ⟨v, vkids, hvalue, hown⟩ := ownValue_of_width hone
    have hfirst : member.2.at? 0 = some (v, vkids) := by
      rw [hvalue]
      rfl
    have hbelow := at?_child (hplace htrees) hfirst
    rw [Option.bind_some, hown]
    have hindex : 0 + 1 + (listing before).length + 1 + 0 = 1 + (listing before).length + 1 := by
      omega
    exact ⟨z, _, hz, hlists, hfind.trans htok, hindex ▸ hbelow⟩

/-! ## Reading a value -/

/-- A reader with one token. -/
def only (json : Bytes) (n : JsonNode) : JsonReader := ⟨1, [n.token 0], 1, json⟩

/-- What `int_at` reads at a node. -/
def nodeInt (json : Bytes) (n : JsonNode) : Option Int := (only json n).intAt (some 0)

/-- What `str_at` reads at a node, into a buffer of `cap` bytes. -/
def nodeStr (json : Bytes) (n : JsonNode) (cap : Nat) : Option Bytes :=
  (only json n).strAt (some 0) cap

/-- The token that `find` returns is that of the value it reaches. -/
theorem token?_reached (hok : (r.parse json).1 = .ok) (key : Bytes) :
    (r.parse json).2.token? ((r.parse json).2.find (some 0) key) =
      (reached json key).map fun v => v.1.token v.2.width := by
  have hfind := find_reached hok key
  cases hreached : reached json key with
  | none =>
    rw [hreached] at hfind
    rw [hfind]
    rfl
  | some v =>
    rw [hreached] at hfind
    obtain ⟨z, i, -, hlists, hfind, hat⟩ := hfind
    rw [hfind, hlists.token?_at hat]
    rfl

/-- **What `get_int` reads at the root.** -/
theorem getInt_reached (hok : (r.parse json).1 = .ok) (key : Bytes) :
    (r.parse json).2.getInt (some 0) key = (reached json key).bind fun v => nodeInt json v.1 := by
  obtain ⟨-, -, -, -, -, -, hjson⟩ := parse_lists hok
  rw [getInt, intAt, token?_reached hok]
  cases reached json key with
  | none => rfl
  | some v =>
    simp only [slice, hjson]
    rfl

/-- **What `get_str` reads at the root.** -/
theorem getStr_reached (hok : (r.parse json).1 = .ok) (key : Bytes) (cap : Nat) :
    (r.parse json).2.getStr (some 0) key cap =
      (reached json key).bind fun v => nodeStr json v.1 cap := by
  obtain ⟨-, -, -, -, -, -, hjson⟩ := parse_lists hok
  rw [getStr, strAt, token?_reached hok]
  cases reached json key with
  | none => rfl
  | some v =>
    simp only [slice, hjson]
    rfl

end JsonReader

end SoulCloud
