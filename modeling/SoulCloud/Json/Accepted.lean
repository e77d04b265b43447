import SoulCloud.Json.Lookup

/-!
# What holds of every accepted text

`sc_json_reader::parse` accepts more than JSON. Whatever it accepts, its tokens are the
listing of a forest and point into the text, so no lookup can leave the subtree it was
asked about or the text.

- `built`: the tree that the text's lexemes build; `parse_built` says what `parse` makes of it.
- `Placed`: the lexemes stand one after the other.
- `built_within`: every node lies in the text.
- `lookup_safe`: the safety of every lookup, after a parse that succeeds or fails.
-/

namespace SoulCloud

open Forest

/-! ## Acceptance -/

/-- The tree that the lexemes of a text build, if they can be read and fit. -/
def built (js : Bytes) : Option TokenTree := (lex js 0 0).bind (TokenTree.run Zipper.empty)

/-- No node above the focus is open. -/
def TokenTree.Complete (z : TokenTree) : Prop := (z.rise JsonNode.isOpen).path = []

theorem built_settled {js : Bytes} {z : TokenTree} (h : built js = some z) : z.Settled := by
  obtain ⟨ls, -, hrun⟩ := Option.bind_eq_some_iff.mp h
  exact TokenTree.settled_empty.run hrun

theorem focus_rise_isSome {z : TokenTree} :
    (z.rise JsonNode.isOpen).focus.isSome = true ↔ ¬ z.Complete := by
  rw [TokenTree.Complete, Zipper.focus]
  cases (z.rise JsonNode.isOpen).path <;> simp

/-- **What the tokenizer returns**, by the tree that the text builds. -/
theorem jsmnParse_built (cap : Nat) (js : Bytes) :
    match built js with
    | none => ∃ e, jsmnParse cap js = .error e
    | some z =>
      (cap < z.forest.count → jsmnParse cap js = .error .noMem) ∧
        (z.forest.count ≤ cap → z.Complete → jsmnParse cap js = .ok z.tokens) ∧
        (z.forest.count ≤ cap → ¬ z.Complete → jsmnParse cap js = .error .part) := by
  rw [built, jsmnParse]
  cases hlex : lex js 0 0 with
  | none =>
    obtain ⟨e, he⟩ : ∃ e, JsmnParser.loop cap js 0 0 .init = .error e :=
      JsmnParser.loop_of_lex_none hlex
    rw [he]
    exact ⟨e, rfl⟩
  | some ls =>
    have hrun := TokenTree.tracks_empty.run TokenTree.settled_empty (Nat.zero_le cap) ls
    rw [JsmnParser.loop_of_lex hlex, Option.bind_some]
    cases hz : TokenTree.run Zipper.empty ls with
    | none =>
      rw [hz] at hrun
      obtain ⟨e, he⟩ := hrun
      rw [he]
      exact ⟨e, rfl⟩
    | some z =>
      rw [hz] at hrun
      obtain ⟨hok, hfull⟩ := hrun
      have hsettled := TokenTree.settled_empty.run hz
      refine ⟨?_, ?_, ?_⟩
      · intro hlt
        rw [hfull hlt]
      all_goals
        intro hle hcomplete
        obtain ⟨s, hs, htracks⟩ := hok hle
        rw [hs]
        dsimp only
        rw [htracks.tokens, TokenTree.lastToken_isOpen hsettled]
      · rw [if_neg (by rw [focus_rise_isSome]; exact not_not.mpr hcomplete)]
      · rw [if_pos (focus_rise_isSome.mpr hcomplete)]

/-- The type of the first node of a forest. -/
def firstType (f : Forest JsonNode) : Option JsmnType := f.labels.head?.map (·.type)

theorem head?_tokens (z : TokenTree) : z.tokens.head?.map (·.type) = firstType z.forest := by
  rw [firstType, labels, TokenTree.tokens, tokensOf]
  rw [List.head?_map, List.head?_map]
  cases z.forest.preorder.head? <;> rfl

namespace JsonReader

variable {r : JsonReader} {json : Bytes}

/-- **What `parse` returns**, by the tree that the text builds. -/
theorem parse_built (r : JsonReader) (json : Bytes) :
    match built json with
    | none => (r.parse json).1 ≠ .ok
    | some z =>
      (r.maxTokens < z.forest.count → (r.parse json).1 = .noMem) ∧
        (z.forest.count ≤ r.maxTokens → z.Complete → firstType z.forest = some .object →
          r.parse json =
            (.ok, { r with json := json, tokens := z.tokens, count := z.tokens.length })) ∧
        (z.forest.count ≤ r.maxTokens → ¬ (z.Complete ∧ firstType z.forest = some .object) →
          (r.parse json).1 = .invalidArg) := by
  have hjsmn := jsmnParse_built r.maxTokens json
  rw [parse]
  cases hz : built json with
  | none =>
    rw [hz] at hjsmn
    obtain ⟨e, he⟩ := hjsmn
    rw [he]
    cases e <;> nofun
  | some z =>
    rw [hz] at hjsmn
    obtain ⟨hfull, hok, hpart⟩ := hjsmn
    refine ⟨?_, ?_, ?_⟩
    · intro hlt
      rw [hfull hlt]
    · intro hle hcomplete htype
      rw [hok hle hcomplete]
      exact if_pos ((head?_tokens z).trans htype)
    · intro hle hno
      by_cases hcomplete : z.Complete
      · rw [hok hle hcomplete]
        have htype : ¬ z.tokens.head?.map (·.type) = some .object := by
          rw [head?_tokens]
          exact fun htype => hno ⟨hcomplete, htype⟩
        dsimp only
        rw [if_neg htype]
      · rw [hpart hle hcomplete]

/-- What an accepted text leaves in the reader. -/
theorem parse_lists (hok : (r.parse json).1 = .ok) :
    ∃ z, built json = some z ∧ z.forest.count ≤ r.maxTokens ∧ z.Complete ∧
      firstType z.forest = some .object ∧ Lists (r.parse json).2 z.forest ∧
      (r.parse json).2.json = json := by
  have hparse := parse_built r json
  cases hz : built json with
  | none =>
    rw [hz] at hparse
    exact absurd hok hparse
  | some z =>
    rw [hz] at hparse
    obtain ⟨hfull, haccept, hreject⟩ := hparse
    have hle : z.forest.count ≤ r.maxTokens := by
      by_contra hlt
      rw [hfull (by omega)] at hok
      cases hok
    have hboth : z.Complete ∧ firstType z.forest = some .object := by
      by_contra hno
      rw [hreject hle hno] at hok
      cases hok
    refine ⟨z, rfl, hle, hboth.1, hboth.2, ?_⟩
    rw [haccept hle hboth.1 hboth.2]
    exact ⟨⟨rfl, z.length_tokens⟩, rfl⟩

theorem parse_ok_iff :
    (r.parse json).1 = .ok ↔
      ∃ z, built json = some z ∧ z.forest.count ≤ r.maxTokens ∧ z.Complete ∧
        firstType z.forest = some .object := by
  constructor
  · intro hok
    obtain ⟨z, hz, hle, hcomplete, htype, -⟩ := parse_lists hok
    exact ⟨z, hz, hle, hcomplete, htype⟩
  · rintro ⟨z, hz, hle, hcomplete, htype⟩
    have hparse := parse_built r json
    rw [hz] at hparse
    rw [hparse.2.1 hle hcomplete htype]

/-- After a parse that fails there are no tokens. -/
theorem parse_count_of_ne {r : JsonReader} {json : Bytes} (h : (r.parse json).1 ≠ .ok) :
    (r.parse json).2.count = 0 := by
  rw [parse] at h ⊢
  cases hjsmn : jsmnParse r.maxTokens json with
  | error e => cases e <;> rfl
  | ok toks =>
    rw [hjsmn] at h
    dsimp only at h ⊢
    split_ifs at h ⊢
    · exact absurd rfl h
    · rfl

end JsonReader

/-! ## Places in the text -/

theorem scanString_lt {m : StringScan} {bs : Bytes} {n k : Nat}
    (h : scanString m bs n = .ok k) : n ≤ k ∧ k < n + bs.length := by
  induction bs generalizing m n with
  | nil => cases m <;> cases h
  | cons c rest ih =>
    have hstep : ∀ {m : StringScan}, scanString m rest (n + 1) = .ok k →
        n ≤ k ∧ k < n + (c :: rest).length := by
      intro m hm
      have := ih hm
      rw [List.length_cons]
      omega
    cases m with
    | plain =>
      rw [scanString] at h
      split_ifs at h
      · cases h
        simp
      · exact hstep h
      · exact hstep h
    | escape =>
      rw [scanString] at h
      split_ifs at h
      · exact hstep h
      · exact hstep h
    | hex d =>
      unfold scanString at h
      split_ifs at h
      exact hstep h

theorem scanPrimitive_lt {bs : Bytes} {n k : Nat} (h : scanPrimitive bs n = .ok k) :
    n ≤ k ∧ k < n + bs.length := by
  induction bs generalizing n with
  | nil => cases h
  | cons c rest ih =>
    rw [scanPrimitive] at h
    split_ifs at h
    · cases h
      simp
    · have := ih h
      rw [List.length_cons]
      omega

/-- The stretch of the text that a lexeme's node covers, or its bracket. -/
def Lexeme.span : Lexeme → Option (Nat × Nat)
  | .opening _ pos | .closing _ pos => some (pos, pos + 1)
  | .string start stop | .primitive start stop => some (start, stop)
  | .colon | .comma => none

/-- The lexemes stand one after the other between `p` and `q`. -/
def Placed : Nat → List Lexeme → Nat → Prop
  | p, [], q => p ≤ q
  | p, l :: ls, q =>
    match l.span with
    | none => Placed p ls q
    | some (a, b) => p ≤ a ∧ a ≤ b ∧ Placed b ls q

theorem Placed.of_le {p p' q : Nat} {ls : List Lexeme} (h : Placed p' ls q) (hp : p ≤ p') :
    Placed p ls q := by
  induction ls with
  | nil => exact hp.trans h
  | cons l ls ih =>
    rw [Placed] at h ⊢
    cases hl : l.span with
    | none =>
      rw [hl] at h
      exact ih h
    | some ab =>
      rw [hl] at h
      exact ⟨hp.trans h.1, h.2⟩

theorem lexStep_span {c : UInt8} {rest : Bytes} {pos skip : Nat} {l : Option Lexeme}
    (h : lexStep c rest pos = some (l, skip)) :
    skip ≤ rest.length ∧ ∀ a b, l.bind Lexeme.span = some (a, b) →
      pos ≤ a ∧ a ≤ b ∧ b ≤ pos + 1 + skip := by
  cases lexStep_cases h with
  | string hscan =>
    have hlt := scanString_lt hscan
    refine ⟨by omega, ?_⟩
    rintro a b ⟨⟩
    omega
  | primitive _ hscan =>
    have hlt := scanPrimitive_lt hscan
    rw [List.length_cons] at hlt
    refine ⟨by omega, ?_⟩
    rintro a b ⟨⟩
    omega
  | opening | closing =>
    refine ⟨Nat.zero_le _, ?_⟩
    rintro a b ⟨⟩
    omega
  | space | colon | comma => exact ⟨Nat.zero_le _, nofun⟩

theorem lex_placed {js : Bytes} {pos skip : Nat} {ls : List Lexeme}
    (h : lex js pos skip = some ls) (hskip : skip ≤ js.length) :
    Placed (pos + skip) ls (pos + js.length) := by
  induction js generalizing pos skip ls with
  | nil =>
    cases h
    exact Nat.add_le_add_left hskip pos
  | cons c rest ih =>
    rw [List.length_cons] at hskip ⊢
    cases skip with
    | succ skip =>
      have htail := ih h (Nat.le_of_succ_le_succ hskip)
      rwa [show pos + 1 + skip = pos + (skip + 1) by omega,
        show pos + 1 + rest.length = pos + (rest.length + 1) by omega] at htail
    | zero =>
      obtain ⟨-, rfl⟩ | ⟨-, l, skip, ls', hstep, hls', rfl⟩ := lex_cons_cases h
      · exact Nat.le_add_right _ _
      · obtain ⟨hle, hspan⟩ := lexStep_span hstep
        have htail := ih hls' hle
        rw [show pos + 1 + rest.length = pos + (rest.length + 1) by omega] at htail
        cases l with
        | none => exact htail.of_le (by omega)
        | some l =>
          show Placed pos (l :: ls') _
          rw [Placed]
          cases hl : l.span with
          | none => exact htail.of_le (by omega)
          | some ab =>
            obtain ⟨ha, hab, hb⟩ := hspan ab.1 ab.2 hl
            exact ⟨ha, hab, htail.of_le hb⟩

/-- The node starts inside the first `p` bytes and, once it is closed, ends there. -/
def Within (p : Nat) (n : JsonNode) : Prop :=
  0 ≤ n.start ∧ n.start ≤ p ∧ (n.isOpen = false → n.start ≤ n.stop ∧ n.stop ≤ p)

theorem Within.mono {p q : Nat} {n : JsonNode} (h : Within p n) (hpq : p ≤ q) : Within q n := by
  obtain ⟨h₀, hp, hclosed⟩ := h
  have hcast : (p : Int) ≤ q := by exact_mod_cast hpq
  refine ⟨h₀, hp.trans hcast, ?_⟩
  intro hopen
  exact ⟨(hclosed hopen).1, (hclosed hopen).2.trans hcast⟩

namespace TokenTree

variable {z z' : TokenTree}

theorem mem_labels_leaf {n m : JsonNode} (h : m ∈ (z.leaf n).forest.labels) :
    m ∈ z.forest.labels ∨ m = n := by
  rcases Zipper.mem_labels_plug.mp h with h | h
  · rcases List.mem_append.mp ((labels_snoc _ _ _) ▸ h) with h | h
    · exact .inl (Zipper.mem_labels_plug.mpr (.inl h))
    · exact .inr (List.mem_singleton.mp h)
  · exact .inl (Zipper.mem_labels_plug.mpr (.inr h))

/-- Closing changes the end of one node of its type. -/
theorem mem_labels_close {type : JsmnType} {pos : Nat} (h : z.close type pos = some z')
    {m : JsonNode} (hm : m ∈ z'.forest.labels) :
    m ∈ z.forest.labels ∨
      ∃ n ∈ z.forest.labels, n.type = type ∧ m = { n with stop := pos + 1 } := by
  have hforest := z.forest_rise JsonNode.isOpen
  rw [close] at h
  split at h
  · cases h
  · rename_i left n path f heq
    split_ifs at h with htype
    cases h
    rw [heq] at hforest
    rw [Zipper.forest_rise] at hm
    rw [← hforest]
    rcases Zipper.mem_labels_plug.mp hm with hm | ⟨node, hnode, hm⟩
    · exact .inl (Zipper.mem_labels_plug.mpr (.inl hm))
    · rcases List.mem_cons.mp hnode with rfl | hnode
      · rcases hm with rfl | hm
        · refine .inr ⟨n, Zipper.mem_labels_plug.mpr (.inr ?_), not_not.mp htype, rfl⟩
          exact ⟨(left, n), List.mem_cons_self, .inl rfl⟩
        · refine .inl (Zipper.mem_labels_plug.mpr (.inr ?_))
          exact ⟨(left, n), List.mem_cons_self, .inr hm⟩
      · refine .inl (Zipper.mem_labels_plug.mpr (.inr ?_))
        exact ⟨node, List.mem_cons_of_mem _ hnode, hm⟩

theorem forest_comma (z : TokenTree) : z.comma.forest = z.forest := by
  rw [comma]
  split_ifs
  · rfl
  · exact z.forest_rise _
  · rfl

/-- **Step lemma**: a lexeme after `p` keeps every node inside the text read so far. -/
theorem within_act {p : Nat} (hz : ∀ n ∈ z.forest.labels, Within p n) {l : Lexeme}
    (hspan : ∀ a b, l.span = some (a, b) → p ≤ a ∧ a ≤ b) (h : z.act l = some z') :
    ∀ n ∈ z'.forest.labels, Within ((l.span.map Prod.snd).getD p) n := by
  have hleaf : ∀ {type : JsmnType} {a b : Nat}, p ≤ a → a ≤ b →
      ∀ n ∈ (z.leaf ⟨type, a, b⟩).forest.labels, Within b n := by
    intro type a b hpa hab n hn
    rcases mem_labels_leaf hn with hn | rfl
    · exact (hz n hn).mono (hpa.trans hab)
    · refine ⟨Int.natCast_nonneg a, Int.ofNat_le.mpr hab, ?_⟩
      intro _
      exact ⟨Int.ofNat_le.mpr hab, Int.le_refl _⟩
  cases l with
  | opening c pos =>
    obtain ⟨hpos, -⟩ := hspan pos (pos + 1) rfl
    simp only [act] at h
    split_ifs at h
    cases h
    intro n hn
    rw [Zipper.forest_push] at hn
    rcases mem_labels_leaf hn with hn | rfl
    · exact (hz n hn).mono (hpos.trans (Nat.le_succ pos))
    · refine ⟨Int.natCast_nonneg pos, Int.ofNat_le.mpr (Nat.le_succ pos), ?_⟩
      intro hopen
      have hne : ((pos : Int) != -1) = true := by
        rw [bne_iff_ne]
        omega
      simp [JsonNode.isOpen, hne] at hopen
  | closing c pos =>
    obtain ⟨hpos, -⟩ := hspan pos (pos + 1) rfl
    intro n hn
    show Within (pos + 1) n
    rcases mem_labels_close h hn with hn | ⟨m, hm, -, rfl⟩
    · exact (hz n hn).mono (hpos.trans (Nat.le_succ pos))
    · obtain ⟨h₀, hp, -⟩ := hz m hm
      have hcast : (p : Int) ≤ pos := by exact_mod_cast hpos
      refine ⟨h₀, ?_, fun _ => ⟨?_, ?_⟩⟩ <;> push_cast <;> omega
  | string start stop =>
    obtain ⟨hpa, hab⟩ := hspan start stop rfl
    cases h
    exact hleaf hpa hab
  | primitive start stop =>
    obtain ⟨hpa, hab⟩ := hspan start stop rfl
    simp only [act] at h
    split_ifs at h
    cases h
    exact hleaf hpa hab
  | colon =>
    cases h
    rw [Zipper.forest_last]
    exact hz
  | comma =>
    cases h
    rw [forest_comma]
    exact hz

/-- **Run lemma**. -/
theorem within_run {p q : Nat} {ls : List Lexeme} (hz : ∀ n ∈ z.forest.labels, Within p n)
    (hplaced : Placed p ls q) (h : z.run ls = some z') : ∀ n ∈ z'.forest.labels, Within q n := by
  induction ls generalizing z p with
  | nil =>
    cases h
    intro n hn
    exact (hz n hn).mono hplaced
  | cons l ls ih =>
    obtain ⟨z₁, hact, hrun⟩ := Option.bind_eq_some_iff.mp h
    rw [Placed] at hplaced
    cases hl : l.span with
    | none =>
      rw [hl] at hplaced
      have hz₁ := within_act hz (by rw [hl]; nofun) hact
      rw [hl] at hz₁
      exact ih hz₁ hplaced hrun
    | some ab =>
      obtain ⟨a, b⟩ := ab
      rw [hl] at hplaced
      obtain ⟨hpa, hab, htail⟩ := hplaced
      have hz₁ := within_act hz (by rw [hl]; rintro a b ⟨⟩; exact ⟨hpa, hab⟩) hact
      rw [hl] at hz₁
      exact ih hz₁ htail hrun

/-- When no open node is left above the focus, every node is closed. -/
theorem Settled.closed (h : Settled z) (hpath : z.Complete) :
    ∀ n ∈ z.forest.labels, n.isOpen = false := by
  intro n hn
  rw [← z.forest_rise JsonNode.isOpen] at hn
  rcases h.rise.below.mem hn with hclosed | ⟨node, hnode, -⟩
  · exact hclosed
  · rw [show (z.rise JsonNode.isOpen).path = [] from hpath] at hnode
    cases hnode

end TokenTree

/-- The nodes of an accepted text are closed and lie inside it. -/
theorem built_within {js : Bytes} {z : TokenTree} (h : built js = some z) (hz : z.Complete) :
    ∀ n ∈ z.forest.labels, 0 ≤ n.start ∧ n.start ≤ n.stop ∧ n.stop ≤ js.length := by
  obtain ⟨ls, hlex, hrun⟩ := Option.bind_eq_some_iff.mp h
  have hplaced := lex_placed hlex (Nat.zero_le _)
  rw [Nat.zero_add] at hplaced
  have hempty : ∀ n ∈ (Zipper.empty : TokenTree).forest.labels, Within 0 n := by
    intro n hn
    exact absurd hn List.not_mem_nil
  have hwithin : ∀ n ∈ z.forest.labels, Within (0 + js.length) n :=
    TokenTree.within_run hempty hplaced hrun
  have hclosed := (built_settled h).closed hz
  rw [Nat.zero_add] at hwithin
  intro n hn
  obtain ⟨h₀, -, hrange⟩ := hwithin n hn
  exact ⟨h₀, hrange (hclosed n hn)⟩

namespace JsonReader

/-! ## Every lookup is safe -/

theorem mem_labels_of_at? {f : Forest JsonNode} {i : Nat} {n : JsonNode} {kids : Forest JsonNode}
    (h : f.at? i = some (n, kids)) : n ∈ f.labels := by
  obtain ⟨before, after, -, hf⟩ := preorder_of_at? h
  rw [labels]
  rw [hf]
  simp

/-- What `find` returns lies strictly inside the object's subtree, after a token that is a
string equal to the key. -/
theorem Lists.find_inside {r : JsonReader} {f : Forest JsonNode} (h : Lists r f)
    {object : Option Nat} {key : Bytes} {i : Nat} (hfind : r.find object key = some i) :
    ∃ o n kids, object = some o ∧ f.at? o = some (n, kids) ∧ n.type = .object ∧
      o < i ∧ i ≤ o + kids.count ∧
      ∃ t, r.tokens[i - 1]? = some t ∧ t.type = .string ∧
        r.slice t.start t.stop = key := by
  have htok : ∃ t, r.token? object = some t := by
    cases htok : r.token? object with
    | some t => exact ⟨t, rfl⟩
    | none =>
      unfold JsonReader.find JsonReader.isObject at hfind
      cases object with
      | none => cases hfind
      | some o =>
        dsimp only at hfind
        rw [htok] at hfind
        cases hfind
  obtain ⟨t, ht⟩ := htok
  obtain ⟨o, n, kids, rfl, -, hat, -⟩ := h.at?_of_token? ht
  obtain ⟨before, after, rfl, hf⟩ := preorder_of_at? hat
  rw [h.find hf] at hfind
  split_ifs at hfind with htype
  have hmembers : f.preorder = (before ++ [(n, kids.width)]) ++ (listing kids.trees ++ after) := by
    rw [hf, preorder_eq_flatMap_trees kids]
    simp [listing]
  have hlen : (listing kids.trees).length = kids.count := by
    rw [← length_preorder, preorder_eq_flatMap_trees kids]
    rfl
  obtain ⟨hlt, hle, t, ht, hkey⟩ := findTrees_spec h hmembers (by simpa using hfind)
  rw [List.length_append, List.length_singleton] at hlt hle
  refine ⟨before.length, n, kids, rfl, hat, htype, by omega, by omega, t, ht, ?_⟩
  rw [JsonReader.keyEquals] at hkey
  simp only [Bool.and_eq_true, beq_iff_eq] at hkey
  exact ⟨hkey.1.1, hkey.2⟩

theorem Lists.skip_inside {r : JsonReader} {f : Forest JsonNode} (h : Lists r f)
    {tok : Option Nat} {i : Nat} (hskip : r.skip tok = some i) :
    ∃ t, tok = some t ∧ t < i ∧ i < r.count := by
  cases tok with
  | none => cases hskip
  | some t =>
    have hlt : t < f.count := by
      by_contra hge
      have hnone : r.skip (some t) = none := if_neg (h.count ▸ hge)
      rw [hnone] at hskip
      cases hskip
    obtain ⟨⟨n, kids⟩, hat⟩ := at?_of_lt hlt
    rw [h.skip_at hat] at hskip
    split_ifs at hskip with hin
    cases hskip
    exact ⟨t, rfl, by omega, hin⟩

/-- Without tokens every lookup fails. -/
theorem token?_of_count_zero {r : JsonReader} (h : r.count = 0) (tok : Option Nat) :
    r.token? tok = none := by
  cases tok with
  | none => rfl
  | some i => exact if_neg (by omega)

theorem find_of_count_zero {r : JsonReader} (h : r.count = 0) (object : Option Nat)
    (key : Bytes) : r.find object key = none := by
  cases object with
  | none => rfl
  | some o =>
    have hobj : r.isObject (some o) = false := by
      rw [isObject]
      rw [token?_of_count_zero h]
    unfold find
    dsimp only
    rw [hobj]
    rfl

/-- **Every lookup is safe.** After a parse that returns `ESP_OK`, whatever the text, the
tokens are the listing of a forest: `find` stays strictly inside the subtree of the object
it is asked about, and its result follows a token that spells the key; `skip` goes forward
and stays below `count`; and `raw` stays inside the text. After any other parse there is
nothing to be found. -/
theorem lookup_safe (r : JsonReader) (json : Bytes) :
    ((r.parse json).1 = .ok →
      ∃ f : Forest JsonNode, (r.parse json).2.tokens = tokensOf f.preorder ∧
        (r.parse json).2.count = f.count ∧
        (∀ object key i, (r.parse json).2.find object key = some i →
          ∃ o n kids, object = some o ∧ f.at? o = some (n, kids) ∧ n.type = .object ∧
            o < i ∧ i ≤ o + kids.count ∧
            ∃ t, (r.parse json).2.tokens[i - 1]? = some t ∧ t.type = .string ∧
              (r.parse json).2.slice t.start t.stop = key) ∧
        (∀ tok i, (r.parse json).2.skip tok = some i →
          ∃ t, tok = some t ∧ t < i ∧ i < (r.parse json).2.count) ∧
        (∀ tok start len, (r.parse json).2.raw tok = some (start, len) →
          0 ≤ start ∧ 0 ≤ len ∧ start + len ≤ json.length)) ∧
    ((r.parse json).1 ≠ .ok → ∀ tok,
      (∀ key, (r.parse json).2.find tok key = none) ∧ (r.parse json).2.skip tok = none ∧
        (r.parse json).2.raw tok = none ∧ (∀ cap, (r.parse json).2.strAt tok cap = none) ∧
        (r.parse json).2.intAt tok = none ∧
        ∀ key, (r.parse json).2.getBool tok key = none) := by
  constructor
  · intro hok
    obtain ⟨z, hz, -, hcomplete, -, hlists, -⟩ := parse_lists hok
    refine ⟨z.forest, hlists.tokens, hlists.count, ?_, ?_, ?_⟩
    · intro object key i hfind
      exact hlists.find_inside hfind
    · intro tok i hskip
      exact hlists.skip_inside hskip
    · intro tok start len hraw
      obtain ⟨t, ht, heq⟩ := Option.map_eq_some_iff.mp hraw
      obtain ⟨i, n, kids, -, -, hat, rfl⟩ := hlists.at?_of_token? ht
      have hwithin := built_within hz hcomplete n (mem_labels_of_at? hat)
      cases heq
      rw [JsonNode.token]
      dsimp only
      omega
  · intro hfail tok
    have hzero := parse_count_of_ne hfail
    have htok := token?_of_count_zero hzero
    refine ⟨fun key => find_of_count_zero hzero tok key, ?_, ?_, ?_, ?_, ?_⟩
    · cases tok with
      | none => rfl
      | some i => exact if_neg (by omega)
    · rw [raw]
      rw [htok]
      rfl
    · intro cap
      rw [strAt]
      rw [htok]
    · rw [intAt]
      rw [htok]
    · intro key
      rw [getBool]
      dsimp only
      rw [htok]

end JsonReader

end SoulCloud
