import SoulCloud.Codec
import SoulCloud.Json.Meant

/-!
# Per-tag levels in accepted documents (`sc_codec::decode_log_config`)

The tokenizer accepts documents in which a member of `tags` has no value or several of them.
The walk of `decode_log_config` takes the tokens two by two and leaves the object there.

- `OwnEntry`: what a child of `tags` itself asks for.
- `PairsUp`: the tokens from a place on are a tag and a level name in turn.
- `tags_decoded_iff`: the levels are those of the children exactly when every child has one
  value of its own or the request is refused.
-/

namespace SoulCloud

open Bytes Forest Json

/-! ## The object -/

/-- A child of `tags` with one value of its own: the tag and the level, as C strings name them. -/
inductive OwnEntry (json : Bytes) : JsonNode × Forest JsonNode → Bytes × Int → Prop
  | intro {n v : JsonNode} {vkids : Forest JsonNode} {tag name : Bytes}
      (htag : NodeSpells json n tag) (hname : NodeSpells json v name)
      (hlevel : cstr name ∈ levelNames) :
      OwnEntry json (n, .snoc .nil v vkids) (cstr tag, levelFromName (cstr name))

/-- The setter of a level that writes its calls down. -/
def logTag (tag : Bytes) (level : Int) (calls : List (Bytes × Int)) : List (Bytes × Int) :=
  calls ++ [(tag, level)]

/-- What becomes of the children of `tags`: on success the setter has been called once for each
of them, in order, with what it asks for; none of them is without a value. On failure the setter
has not been called. -/
structure TagsDecoded (json : Bytes) (children : List (JsonNode × Forest JsonNode))
    (decoded : EspErr × LogConfig × List (Bytes × Int)) : Prop where
  entries : decoded.1 = .ok → List.Forall₂ (OwnEntry json) children decoded.2.2
  valueless : ∀ child ∈ children, child.2.width = 0 → decoded.1 ≠ .ok
  untouched : decoded.1 ≠ .ok → decoded.2.2 = []

theorem width_of_ownEntries {json : Bytes} {children : List (JsonNode × Forest JsonNode)}
    {entries : List (Bytes × Int)} (h : List.Forall₂ (OwnEntry json) children entries) :
    ∀ child ∈ children, child.2.width = 1 := by
  induction h with
  | nil => exact nofun
  | cons hentry _ ih =>
    intro child hchild
    rcases List.mem_cons.mp hchild with rfl | hchild
    · cases hentry
      rfl
    · exact ih child hchild

/-! ## The walk -/

theorem levelFromName_nonneg {name : Bytes} : 0 ≤ levelFromName name ↔ name ∈ levelNames := by
  unfold levelFromName
  cases hidx : levelNames.idxOf? name with
  | none =>
    rw [List.idxOf?_eq_none_iff] at hidx
    simp [hidx]
  | some idx =>
    have hmem : name ∈ levelNames := by
      by_contra hno
      rw [List.idxOf?_eq_none_iff.mpr hno] at hidx
      cases hidx
    simp [hmem]

namespace JsonReader

variable {r : JsonReader} {f : Forest JsonNode}

/-- The request has a string `level` that fits its buffer and is no level name. -/
def BadLevel (r : JsonReader) : Prop :=
  ∃ name, r.getCStr (some 0) (ascii "level") 16 = some name ∧ name ∉ levelNames

/-- From the token `member` on there are `n` pairs of a tag and a level name, or as many as there
are up to the end of the document. -/
inductive PairsUp (r : JsonReader) : Nat → Option Nat → Prop
  | done (member : Option Nat) : PairsUp r 0 member
  | finished (n : Nat) : PairsUp r n none
  | pair {n member : Nat} {tag name : Bytes} (htag : r.cstrAt (some member) 32 = some tag)
      (hname : r.cstrAt (some (member + 1)) 16 = some name) (hlevel : name ∈ levelNames)
      (hrest : PairsUp r n (r.skip (some (member + 1)))) : PairsUp r (n + 1) (some member)

theorem badLevel_iff : r.BadLevel ↔ ∃ level, r.requestLevel = some level ∧ level < 0 := by
  unfold BadLevel requestLevel
  constructor
  · rintro ⟨name, hname, hbad⟩
    refine ⟨levelFromName name, by rw [hname]; rfl, ?_⟩
    exact not_le.mp fun hle => hbad (levelFromName_nonneg.mp hle)
  · rintro ⟨level, hlevel, hneg⟩
    obtain ⟨name, hname, rfl⟩ := Option.map_eq_some_iff.mp hlevel
    exact ⟨name, hname, fun hmem => absurd (levelFromName_nonneg.mpr hmem) (not_le.mpr hneg)⟩

theorem tagEntry_eq_some {member : Nat} {entry : Bytes × Int} :
    r.tagEntry member = some entry ↔
      ∃ name, r.cstrAt (some member) 32 = some entry.1 ∧
        r.cstrAt (some (member + 1)) 16 = some name ∧ name ∈ levelNames ∧
        entry.2 = levelFromName name := by
  unfold tagEntry
  constructor
  · intro h
    split at h
    · next tag name htag hname =>
      split_ifs at h with hneg
      cases h
      exact ⟨name, htag, hname, levelFromName_nonneg.mp (not_lt.mp hneg), rfl⟩
    · cases h
  · rintro ⟨name, htag, hname, hmem, hlevel⟩
    rw [htag, hname]
    dsimp only
    rw [if_neg (not_lt.mpr (levelFromName_nonneg.mpr hmem)), ← hlevel]

/-- The walk goes through iff the tokens pair up. -/
theorem pairsUp_iff {n : Nat} {member : Option Nat} :
    r.PairsUp n member ↔ ∃ entries, r.tagWalk n member = some entries := by
  constructor
  · intro h
    induction h with
    | done member => exact ⟨[], by cases member <;> rfl⟩
    | finished n => exact ⟨[], by cases n <;> rfl⟩
    | @pair n member tag name htag hname hlevel hrest ih =>
      obtain ⟨entries, hentries⟩ := ih
      have hentry : r.tagEntry member = some (tag, levelFromName name) :=
        tagEntry_eq_some.mpr ⟨name, htag, hname, hlevel, rfl⟩
      refine ⟨(tag, levelFromName name) :: entries, ?_⟩
      simp only [tagWalk, hentry, hentries, Option.map_some]
  · rintro ⟨entries, h⟩
    induction n, member using tagWalk.induct r generalizing entries with
    | case1 member => exact .done member
    | case2 n => exact .finished (n + 1)
    | case3 n member hentry =>
      simp only [tagWalk, hentry] at h
      cases h
    | case4 n member entry hentry ih =>
      simp only [tagWalk, hentry] at h
      obtain ⟨rest, hrest, -⟩ := Option.map_eq_some_iff.mp h
      obtain ⟨name, htag, hname, hlevel, -⟩ := tagEntry_eq_some.mp hentry
      exact .pair htag hname hlevel (ih rest hrest)

/-- What `str_at` reads at a node of the document. -/
theorem Lists.nodeSpells (h : Lists r f) {before after : List (JsonNode × Nat)} {n : JsonNode}
    {size cap : Nat} {text : Bytes} (hf : f.preorder = before ++ (n, size) :: after)
    (htext : r.cstrAt (some before.length) cap = some text) :
    ∃ value, NodeSpells r.json n value ∧ text = cstr value := by
  obtain ⟨value, hvalue, rfl⟩ := Option.map_eq_some_iff.mp htext
  unfold strAt at hvalue
  rw [h.token? hf] at hvalue
  dsimp only at hvalue
  split_ifs at hvalue with hno
  rw [not_or, not_not] at hno
  exact ⟨value, ⟨hno.1, (spells_of_unescape hvalue).1⟩, rfl⟩

/-- **The walk over children with one value each** finds what each of them asks for. -/
theorem Lists.tagWalk_own (h : Lists r f) {trees : List (JsonNode × Forest JsonNode)}
    (hown : ∀ tree ∈ trees, tree.2.width = 1) {before after : List (JsonNode × Nat)}
    (hf : f.preorder = before ++ (listing trees ++ after)) {entries : List (Bytes × Int)}
    (hwalk : r.tagWalk trees.length (some before.length) = some entries) :
    List.Forall₂ (OwnEntry r.json) trees entries := by
  induction trees generalizing before entries with
  | nil =>
    cases hwalk
    exact .nil
  | cons tree rest ih =>
    obtain ⟨n, kids⟩ := tree
    obtain ⟨v, vkids, rfl⟩ := eq_snoc_of_width (hown (n, kids) List.mem_cons_self)
    have hvalue := hf.trans (listing_member before after n v vkids rest)
    have hmember : f.preorder = before ++ (n, 1) ::
        ((v, vkids.width) :: (vkids.preorder ++ (listing rest ++ after))) := by
      rw [hvalue, List.append_assoc]
      rfl
    have hlen : (before ++ [(n, 1)]).length = before.length + 1 := by simp
    rw [List.length_cons] at hwalk
    simp only [tagWalk] at hwalk
    cases hentry : r.tagEntry before.length with
    | none =>
      rw [hentry] at hwalk
      cases hwalk
    | some entry =>
      rw [hentry] at hwalk
      obtain ⟨tail, htail, rfl⟩ := Option.map_eq_some_iff.mp hwalk
      obtain ⟨name, htag, hname, hlevel, hnum⟩ := tagEntry_eq_some.mp hentry
      obtain ⟨tagValue, hspells, htagEq⟩ := h.nodeSpells hmember htag
      obtain ⟨nameValue, hspells', rfl⟩ := h.nodeSpells hvalue (hlen ▸ hname)
      have hhead : OwnEntry r.json (n, snoc nil v vkids) entry := by
        have hintro : OwnEntry r.json (n, snoc nil v vkids) _ := .intro hspells hspells' hlevel
        rwa [← htagEq, ← hnum] at hintro
      refine .cons hhead ?_
      obtain ⟨next, hnext, -, hskip⟩ := h.next_member hf
      cases rest with
      | nil =>
        cases htail
        exact .nil
      | cons tree rest =>
        rw [hskip (List.cons_ne_nil _ _)] at htail
        exact ih (fun tree htree => hown tree (List.mem_cons_of_mem _ htree)) hnext htail

/-! ## Decoding -/

theorem setTags_logTag (entries calls : List (Bytes × Int)) :
    setTags logTag entries calls = calls ++ entries := by
  induction entries generalizing calls with
  | nil => exact (List.append_nil calls).symm
  | cons entry entries ih =>
    have htail := ih (logTag entry.1 entry.2 calls)
    rw [logTag, List.append_assoc] at htail
    exact htail

/-- What `decode_log_config` returns, and the calls of the setter. -/
theorem decodeLogConfig_calls (r : JsonReader) (out : LogConfig) :
    (¬ r.BadLevel ∧ ∃ entries, r.listedTags = some entries ∧
        (r.decodeLogConfig out logTag []).1 = .ok ∧
        (r.decodeLogConfig out logTag []).2.2 = entries) ∨
      (r.BadLevel ∨ r.listedTags = none) ∧ (r.decodeLogConfig out logTag []).1 = .invalidArg ∧
        (r.decodeLogConfig out logTag []).2.2 = [] := by
  have hspec := r.decodeLogConfig_spec out logTag []
  generalize r.decodeLogConfig out logTag [] = decoded at hspec
  cases hspec with
  | @accepted entries text bin hlevel htags =>
    refine .inl ⟨?_, entries, htags, rfl, ?_⟩
    · rw [badLevel_iff]
      rintro ⟨level, hreq, hneg⟩
      exact absurd (hlevel level hreq) (not_le.mpr hneg)
    · exact setTags_logTag entries []
  | refused h =>
    rw [← badLevel_iff] at h
    exact .inr ⟨h, rfl, rfl⟩

/-- The children of an object of an accepted text, and the walk over them. -/
theorem parse_object {json : Bytes} (hok : (r.parse json).1 = .ok) {tags : Nat}
    (hobject : (r.parse json).2.isObject (some tags) = true) :
    ∃ (f : Forest JsonNode) (before after : List (JsonNode × Nat)),
      Lists (r.parse json).2 f ∧ (r.parse json).2.json = json ∧ before.length = tags + 1 ∧
      f.preorder = before ++ (listing (objectChildren json tags) ++ after) ∧
      (r.parse json).2.childCount (some tags) = (objectChildren json tags).length := by
  obtain ⟨z, hz, -, -, -, hlists, hjson⟩ := parse_lists hok
  have hobj := hobject
  unfold isObject at hobj
  split at hobj
  · next t ht =>
    obtain ⟨i, n, kids, htok, -, hat, rfl⟩ := hlists.at?_of_token? ht
    cases htok
    have hchildren : objectChildren json tags = kids.trees := by
      unfold objectChildren
      rw [hz, Option.bind_some, hat]
    have hcount : (r.parse json).2.childCount (some tags) = kids.trees.length := by
      rw [childCount, ht, length_trees]
      rfl
    obtain ⟨before, after, rfl, hf⟩ := preorder_of_at? hat
    refine ⟨z.forest, before ++ [(n, kids.width)], after, hlists, hjson, by simp, ?_, ?_⟩
    · rw [hchildren, hf, preorder_eq_flatMap_trees kids]
      simp [listing]
    · rw [hcount, hchildren]
  · cases hobj

theorem listedTags_of_object {tags : Nat} (hfind : r.find (some 0) (ascii "tags") = some tags)
    (hobject : r.isObject (some tags) = true) :
    r.listedTags = r.tagWalk (r.childCount (some tags)) (some (tags + 1)) := by
  rw [listedTags, hfind]
  exact if_neg (by rw [hobject]; nofun)

/-- **Per-tag levels.** In an accepted document with an object `tags`, the setter is called for
the children of that object and with what they ask for themselves if and only if every child has
one value of its own or the request is refused: its level is no level name, or the tokens from
the first child on are not a tag and a level name in turn. -/
theorem tags_decoded_iff {json : Bytes} (hok : (r.parse json).1 = .ok) {tags : Nat}
    (hfind : (r.parse json).2.find (some 0) (ascii "tags") = some tags)
    (hobject : (r.parse json).2.isObject (some tags) = true) (out : LogConfig) :
    TagsDecoded json (objectChildren json tags)
        ((r.parse json).2.decodeLogConfig out logTag []) ↔
      (∀ child ∈ objectChildren json tags, child.2.width = 1) ∨ (r.parse json).2.BadLevel ∨
        ¬ (r.parse json).2.PairsUp (objectChildren json tags).length (some (tags + 1)) := by
  obtain ⟨f, before, after, hlists, hjson, hlen, hf, hcount⟩ := parse_object hok hobject
  have htags := listedTags_of_object hfind hobject
  rw [hcount, ← hlen] at htags
  have hpairs : (∃ entries, (r.parse json).2.listedTags = some entries) ↔
      (r.parse json).2.PairsUp (objectChildren json tags).length (some (tags + 1)) := by
    rw [pairsUp_iff, htags, hlen]
  rcases (r.parse json).2.decodeLogConfig_calls out with
    ⟨hlevel, entries, hentries, hret, hcalls⟩ | ⟨hrefused, hret, hcalls⟩
  · constructor
    · rintro ⟨hall, -, -⟩
      refine .inl fun child hchild => ?_
      exact width_of_ownEntries (hall hret) child hchild
    · rintro (hown | hbad | hno)
      · rw [htags] at hentries
        have hwalk := hlists.tagWalk_own hown hf hentries
        rw [hjson] at hwalk
        refine ⟨fun _ => hcalls ▸ hwalk, ?_, fun hne => absurd hret hne⟩
        intro child hchild hzero
        rw [hown child hchild] at hzero
        cases hzero
      · exact absurd hbad hlevel
      · exact absurd (hpairs.mp ⟨entries, hentries⟩) hno
  · have hne : (( r.parse json).2.decodeLogConfig out logTag []).1 ≠ .ok := by
      rw [hret]
      nofun
    constructor
    · rintro -
      refine .inr (hrefused.imp id fun hnone => ?_)
      rw [← hpairs, hnone]
      rintro ⟨entries, hentries⟩
      cases hentries
    · rintro -
      exact ⟨fun hok => absurd hok hne, fun _ _ _ => hne, fun _ => hcalls⟩

/-- Two tags with a level each. -/
def tagsSample : Bytes :=
  ascii "\x7b\"tags\":\x7b\"wifi\":\"info\",\"ota\":\"warn\"\x7d\x7d"

theorem tags_decoded_sample :
    TagsDecoded tagsSample (objectChildren tagsSample 2)
      (((new 16).parse tagsSample).2.decodeLogConfig .unchanged logTag []) := by
  refine (tags_decoded_iff (by decide +kernel) (by decide +kernel) (by decide +kernel) _).mpr
    (.inl ?_)
  decide +kernel

/-- Two tags without a level, and a member behind the object. -/
def strayTagsSample : Bytes :=
  ascii "\x7b\"tags\":\x7b\"wifi\",\"info\"\x7d,\"ota\":\"warn\"\x7d"

/-- The level of the second call comes from outside of the object. -/
theorem tags_stray :
    ¬ ∀ (json : Bytes) (tags : Nat) (out : LogConfig), ((new 16).parse json).1 = .ok →
      ((new 16).parse json).2.find (some 0) (ascii "tags") = some tags →
      ((new 16).parse json).2.isObject (some tags) = true →
      TagsDecoded json (objectChildren json tags)
        (((new 16).parse json).2.decodeLogConfig out logTag []) := by
  intro hall
  have hdecoded := hall strayTagsSample 2 .unchanged (by decide +kernel) (by decide +kernel)
    (by decide +kernel)
  have hwidth := width_of_ownEntries (hdecoded.entries (by decide +kernel))
  revert hwidth
  decide +kernel

end JsonReader

end SoulCloud
