import SoulCloud.LogConfig

/-!
# When levels are refused, and what has been checked before one is set (`log.config`)

`decode_log_config` checks and applies in one function. Its two passes over `tags` go over the
same tokens, so nothing is applied unless the first one has gone through.

- `LogEvent`, `logConfigEvents`: the checks and the calls of the setter, in their order, with
  `run_logConfigEvents`: they are those of `decode_log_config`.
- `log_config_atomic`: a request answered `ok:false` has changed nothing.
- `log_config_checked_iff`: every child of `tags` has been checked before the setter is called
  exactly when all but the last one have one value of their own or the setter is not called.
- `level_refused_iff`: a document's `level`, however its key is spelled, decides as it should
  exactly when it is a level name, or the member that is found in its place is a short string that
  does not begin with one, or the tags are refused anyway.
-/

namespace SoulCloud

open Bytes Forest Json

variable {σ : Type}

/-! ## Events -/

/-- What `decode_log_config` does to the entries of `tags`. -/
inductive LogEvent where
  /-- The entry at a token is read as a tag and a level. -/
  | checked (member : Nat)
  /-- The setter is called. -/
  | setTag (tag : Bytes) (level : Int)
  deriving DecidableEq

/-- What an event does. -/
def LogEvent.act (setTag : Bytes → Int → σ → σ) (s : σ) : LogEvent → σ
  | .checked _ => s
  | .setTag tag level => setTag tag level s

/-- What events do one after another. -/
def LogEvent.run (setTag : Bytes → Int → σ → σ) (s : σ) (events : List LogEvent) : σ :=
  events.foldl (LogEvent.act setTag) s

namespace JsonReader

variable (r : JsonReader)

/-- The events of one pass of `decode_log_config`. -/
def passEvents (applies : Bool) : Nat → Option Nat → EspErr × List LogEvent
  | 0, _ => (.ok, [])
  | _ + 1, none => (.ok, [])
  | n + 1, some member =>
    match r.tagEntry member with
    | none => (.invalidArg, [.checked member])
    | some (tag, level) =>
      let rest := passEvents applies n (r.skip (some (member + 1)))
      (rest.1, .checked member :: ((if applies then [.setTag tag level] else []) ++ rest.2))

/-- The events of `decode_log_config` from `tags` on. -/
def tagsEvents : List LogEvent :=
  match r.find (some 0) (ascii "tags") with
  | none => []
  | some tags =>
    if r.isObject (some tags) = false then []
    else
      match r.passEvents false (r.childCount (some tags)) (some (tags + 1)) with
      | (.ok, first) =>
        first ++ (r.passEvents true (r.childCount (some tags)) (some (tags + 1))).2
      | (_, first) => first

/-- The events of `decode_log_config`. -/
def logConfigEvents : List LogEvent :=
  match r.getCStr (some 0) (ascii "level") 16 with
  | some name => if levelFromName name < 0 then [] else r.tagsEvents
  | none => r.tagsEvents

/-- A pass is what its events do. -/
theorem run_passEvents (setTag : Bytes → Int → σ → σ) (applies : Bool) (n : Nat)
    (member : Option Nat) (s : σ) :
    r.tagPass setTag applies n member s =
      ((r.passEvents applies n member).1,
        LogEvent.run setTag s (r.passEvents applies n member).2) := by
  induction n generalizing member s with
  | zero => cases member <;> rfl
  | succ n ih =>
    cases member with
    | none => rfl
    | some member =>
      simp only [tagPass, passEvents]
      cases r.tagEntry member with
      | none => rfl
      | some entry =>
        dsimp only
        rw [ih]
        cases applies <;> rfl

/-- **The events are those of `decode_log_config`.** -/
theorem run_logConfigEvents (out : LogConfig) (setTag : Bytes → Int → σ → σ) (s : σ) :
    (r.decodeLogConfig out setTag s).2.2 = LogEvent.run setTag s r.logConfigEvents := by
  have htags : (r.decodeTags setTag s).2 = LogEvent.run setTag s r.tagsEvents := by
    simp only [decodeTags, tagsEvents]
    cases r.find (some 0) (ascii "tags") with
    | none => rfl
    | some tags =>
      dsimp only
      by_cases hobject : r.isObject (some tags) = false
      · rw [if_pos hobject, if_pos hobject]
        rfl
      · rw [if_neg hobject, if_neg hobject, run_passEvents]
        cases r.passEvents false (r.childCount (some tags)) (some (tags + 1)) with
        | mk ret first =>
          cases ret with
          | ok =>
            dsimp only
            rw [run_passEvents]
            exact (List.foldl_append ..).symm
          | _ => rfl
  simp only [decodeLogConfig, logConfigEvents]
  cases r.getCStr (some 0) (ascii "level") 16 with
  | none => exact htags
  | some name =>
    dsimp only
    split_ifs
    · rfl
    · exact htags

/-! ## The tokens that are checked -/

/-- The tokens that a pass takes for tags if all of them are valid. -/
def walkTokens : Nat → Option Nat → List Nat
  | 0, _ => []
  | _ + 1, none => []
  | n + 1, some member => member :: walkTokens n (r.skip (some (member + 1)))

/-- The tokens of children, from the first one's on. -/
def childTokens : Nat → List (JsonNode × Forest JsonNode) → List Nat
  | _, [] => []
  | i, (_, kids) :: rest => i :: childTokens (i + 1 + kids.count) rest

theorem length_walkTokens (n : Nat) (member : Option Nat) :
    (r.walkTokens n member).length ≤ n := by
  induction n generalizing member with
  | zero => cases member <;> exact Nat.le_refl 0
  | succ n ih =>
    cases member with
    | none => exact Nat.zero_le _
    | some member => exact Nat.succ_le_succ (ih _)

theorem length_childTokens (i : Nat) (trees : List (JsonNode × Forest JsonNode)) :
    (childTokens i trees).length = trees.length := by
  induction trees generalizing i with
  | nil => rfl
  | cons tree rest ih => exact congrArg Nat.succ (ih _)

theorem childTokens_sorted (i : Nat) (trees : List (JsonNode × Forest JsonNode)) :
    (childTokens i trees).Pairwise (· < ·) ∧ ∀ j ∈ childTokens i trees, i ≤ j := by
  induction trees generalizing i with
  | nil => exact ⟨.nil, nofun⟩
  | cons tree rest ih =>
    obtain ⟨hsorted, hle⟩ := ih (i + 1 + tree.2.count)
    refine ⟨.cons (fun j hj => ?_) hsorted, fun j hj => ?_⟩
    · have := hle j hj
      omega
    · rcases List.mem_cons.mp hj with rfl | hj
      · exact Nat.le_refl j
      · have := hle j hj
        omega

variable {r : JsonReader} {f : Forest JsonNode}

theorem Lists.walkTokens_sorted (h : Lists r f) (n : Nat) (member : Option Nat) :
    (r.walkTokens n member).Pairwise (· < ·) ∧
      ∀ j ∈ r.walkTokens n member, ∀ i, member = some i → i ≤ j := by
  induction n generalizing member with
  | zero => cases member <;> exact ⟨.nil, nofun⟩
  | succ n ih =>
    cases member with
    | none => exact ⟨.nil, nofun⟩
    | some member =>
      obtain ⟨hsorted, hle⟩ := ih (r.skip (some (member + 1)))
      have hlt : ∀ j ∈ r.walkTokens n (r.skip (some (member + 1))), member + 1 < j := by
        intro j hj
        cases hskip : r.skip (some (member + 1)) with
        | none =>
          rw [hskip] at hj
          cases n <;> cases hj
        | some next =>
          obtain ⟨t, ht, hnext, -⟩ := h.skip_inside hskip
          cases ht
          exact lt_of_lt_of_le hnext (hle j hj next hskip)
      refine ⟨.cons (fun j hj => ?_) hsorted, ?_⟩
      · have := hlt j hj
        omega
      · rintro j hj i ⟨⟩
        rcases List.mem_cons.mp hj with rfl | hj
        · exact Nat.le_refl j
        · have := hlt j hj
          omega

/-- Behind the token after a child comes the next child iff the child has one value. -/
theorem Lists.skip_eq_next_iff (h : Lists r f) {before after : List (JsonNode × Nat)}
    {n : JsonNode} {kids : Forest JsonNode}
    (hf : f.preorder = before ++ (n, kids.width) :: (kids.preorder ++ after))
    (hmore : after ≠ []) :
    r.skip (some (before.length + 1)) = some (before.length + 1 + kids.count) ↔
      kids.width = 1 := by
  have hcount : kids.count = (listing kids.trees).length := by
    rw [← length_preorder, preorder_eq_flatMap_trees kids]
    rfl
  rw [preorder_eq_flatMap_trees kids] at hf
  have htrees : f.preorder = before ++ (n, kids.width) :: (listing kids.trees ++ after) := hf
  rw [← length_trees]
  cases hkids : kids.trees with
  | nil =>
    rw [hkids] at hcount
    constructor
    · intro hskip
      obtain ⟨t, ht, hlt, -⟩ := h.skip_inside hskip
      cases ht
      have hzero : kids.count = 0 := hcount
      omega
    · nofun
  | cons tree more =>
    obtain ⟨v, vkids⟩ := tree
    have hvalue : f.preorder = (before ++ [(n, kids.width)]) ++
        (v, vkids.width) :: (vkids.preorder ++ (listing more ++ after)) := by
      rw [htrees, hkids]
      simp [listing]
    have hskip := h.skip hvalue
    rw [List.length_append, List.length_singleton, if_neg (by simp [hmore])] at hskip
    have hlen : kids.count = 1 + vkids.count + (listing more).length := by
      rw [hcount, hkids]
      simp [listing]
      omega
    rw [hskip, Option.some.injEq]
    cases more with
    | nil =>
      have hnil : (listing ([] : List (JsonNode × Forest JsonNode))).length = 0 := rfl
      simp only [List.length_singleton, iff_true]
      omega
    | cons next more =>
      have hcons : 0 < (listing (next :: more)).length := by simp [listing]
      simp only [List.length_cons]
      omega

/-- **The walk keeps to the children** iff all but the last one have one value. -/
theorem Lists.walkTokens_eq_iff (h : Lists r f) (trees : List (JsonNode × Forest JsonNode))
    {before after : List (JsonNode × Nat)} (hf : f.preorder = before ++ (listing trees ++ after)) :
    r.walkTokens trees.length (some before.length) = childTokens before.length trees ↔
      ∀ tree ∈ trees.dropLast, tree.2.width = 1 := by
  induction trees generalizing before with
  | nil => exact ⟨fun _ => nofun, fun _ => rfl⟩
  | cons tree rest ih =>
    obtain ⟨n, kids⟩ := tree
    cases rest with
    | nil => exact ⟨fun _ => nofun, fun _ => by simp [walkTokens, childTokens]⟩
    | cons next rest =>
      have hhead : f.preorder = before ++
          (n, kids.width) :: (kids.preorder ++ (listing (next :: rest) ++ after)) := by
        rw [hf]
        simp [listing]
      have hnext : f.preorder = (before ++ (n, kids.width) :: kids.preorder) ++
          (listing (next :: rest) ++ after) := by
        rw [hhead]
        simp
      have hpos : (before ++ (n, kids.width) :: kids.preorder).length =
          before.length + 1 + kids.count := by
        simp only [List.length_append, List.length_cons, length_preorder]
        omega
      have hskip := h.skip_eq_next_iff hhead (by simp [listing])
      have hih := ih hnext
      rw [hpos] at hih
      rw [List.dropLast_cons_cons, List.forall_mem_cons, ← hih, ← hskip]
      rw [List.length_cons, walkTokens, childTokens, List.cons.injEq]
      constructor
      · rintro ⟨-, htail⟩
        -- The next token that the walk takes for a tag is the next child's.
        have hfirst : r.skip (some (before.length + 1)) =
            some (before.length + 1 + kids.count) := by
          cases hnone : r.skip (some (before.length + 1)) with
          | none =>
            rw [hnone] at htail
            cases htail
          | some j =>
            rw [hnone] at htail
            exact congrArg some (List.cons.inj htail).1
        exact ⟨hfirst, hfirst ▸ htail⟩
      · rintro ⟨hfirst, htail⟩
        exact ⟨rfl, hfirst ▸ htail⟩

/-- Tokens in order that are as many as those of a walk at least are among them only if they are
the same. -/
theorem childTokens_subset_iff (h : Lists r f) (i : Nat)
    (trees : List (JsonNode × Forest JsonNode)) :
    childTokens i trees ⊆ r.walkTokens trees.length (some i) ↔
      r.walkTokens trees.length (some i) = childTokens i trees := by
  constructor
  · intro hsub
    have hchildren := (childTokens_sorted i trees).1
    have hwalk := (h.walkTokens_sorted trees.length (some i)).1
    have hperm := List.subperm_of_subset (hchildren.imp Nat.ne_of_lt) hsub
    have hlen := length_childTokens i trees
    have hall := hperm.perm_of_length_le (by
      rw [hlen]
      exact r.length_walkTokens _ _)
    exact (hall.eq_of_pairwise (fun a b _ _ hab hba => absurd hab (Nat.lt_asymm hba)) hchildren
      hwalk).symm
  · intro heq
    exact heq ▸ List.Subset.refl _

/-! ## Checks come first -/

/-- Before the setter is called all these entries have been checked. -/
def ChecksFirst (events : List LogEvent) (entries : List Nat) : Prop :=
  ∀ before tag level after, events = before ++ .setTag tag level :: after →
    ∀ entry ∈ entries, .checked entry ∈ before

/-- The first member `tags`, if it is an object. -/
def tagsObject (r : JsonReader) : Option Nat :=
  (r.find (some 0) (ascii "tags")).filter fun tags => r.isObject (some tags)

/-- The entries of `tags`. -/
def tagsChildren (r : JsonReader) : List (JsonNode × Forest JsonNode) :=
  match r.tagsObject with
  | some tags => objectChildren r.json tags
  | none => []

/-- The tokens of the entries of `tags`. -/
def tagsTokens (r : JsonReader) : List Nat :=
  match r.tagsObject with
  | some tags => childTokens (tags + 1) r.tagsChildren
  | none => []

theorem checksFirst_of_checks {events : List LogEvent} (h : ∀ e ∈ events, ∃ i, e = .checked i)
    (entries : List Nat) : ChecksFirst events entries := by
  rintro before tag level after rfl
  obtain ⟨i, hi⟩ := h _ (List.mem_append_right _ List.mem_cons_self)
  cases hi

/-- The first pass only checks. -/
theorem passEvents_checks (r : JsonReader) (n : Nat) (member : Option Nat) :
    ∀ e ∈ (r.passEvents false n member).2, ∃ i, e = .checked i := by
  induction n generalizing member with
  | zero => cases member <;> exact nofun
  | succ n ih =>
    cases member with
    | none => exact nofun
    | some member =>
      rw [passEvents]
      cases r.tagEntry member with
      | none => exact fun e he => ⟨member, List.mem_singleton.mp he⟩
      | some entry =>
        intro e he
        rcases List.mem_cons.mp he with rfl | he
        · exact ⟨member, rfl⟩
        · exact ih _ e he

/-- The first pass over valid entries. -/
theorem passEvents_of_walk {n : Nat} {member : Option Nat} {entries : List (Bytes × Int)}
    (h : r.tagWalk n member = some entries) :
    r.passEvents false n member = (.ok, (r.walkTokens n member).map .checked) := by
  induction n generalizing member entries with
  | zero => cases member <;> rfl
  | succ n ih =>
    cases member with
    | none => rfl
    | some member =>
      simp only [tagWalk] at h
      simp only [passEvents, walkTokens]
      cases hentry : r.tagEntry member with
      | none =>
        rw [hentry] at h
        cases h
      | some entry =>
        rw [hentry] at h
        obtain ⟨rest, hrest, -⟩ := Option.map_eq_some_iff.mp h
        dsimp only
        rw [ih hrest]
        rfl

/-- The first pass fails on an invalid entry. -/
theorem passEvents_of_walk_none {n : Nat} {member : Option Nat}
    (h : r.tagWalk n member = none) : (r.passEvents false n member).1 = .invalidArg := by
  have hpass := r.tagPass_of_walk_none (fun _ _ s => s) () h
  rw [run_passEvents] at hpass
  exact congrArg Prod.fst hpass

/-- The second pass begins with a call of the setter once it has checked the first entry. -/
theorem passEvents_true {n member : Nat} {entries : List (Bytes × Int)}
    (h : r.tagWalk (n + 1) (some member) = some entries) :
    ∃ tag level rest, (r.passEvents true (n + 1) (some member)).2 =
      .checked member :: .setTag tag level :: rest := by
  rw [tagWalk] at h
  rw [passEvents]
  cases hentry : r.tagEntry member with
  | none =>
    rw [hentry] at h
    cases h
  | some entry => exact ⟨entry.1, entry.2, _, rfl⟩

/-- The setter is called behind the first pass. -/
theorem checksFirst_iff_subset {checks entries : List Nat} {second : List LogEvent} {i : Nat}
    (hmem : i ∈ checks)
    (hsecond : ∃ tag level rest, second = .checked i :: .setTag tag level :: rest) :
    ChecksFirst (checks.map .checked ++ second) entries ↔ entries ⊆ checks := by
  constructor
  · intro h entry hentry
    obtain ⟨tag, level, rest, rfl⟩ := hsecond
    have hbefore := h (checks.map .checked ++ [.checked i]) tag level rest (by simp) entry hentry
    rcases List.mem_append.mp hbefore with hchecked | hlast
    · obtain ⟨j, hj, hje⟩ := List.mem_map.mp hchecked
      cases hje
      exact hj
    · cases List.mem_singleton.mp hlast
      exact hmem
  · intro hsub before tag level after heq entry hentry
    have hchecked : LogEvent.checked entry ∈ checks.map .checked :=
      List.mem_map.mpr ⟨entry, hsub hentry, rfl⟩
    -- The call is none of the checks of the first pass.
    rcases List.append_eq_append_iff.mp heq with ⟨as, rfl, -⟩ | ⟨cs, hcs, hcall⟩
    · exact List.mem_append_left _ hchecked
    · cases cs with
      | nil =>
        rw [List.append_nil] at hcs
        rwa [← hcs]
      | cons c cs =>
        obtain rfl : LogEvent.setTag tag level = c := (List.cons.inj hcall).1
        have hset : LogEvent.setTag tag level ∈ checks.map .checked := by
          rw [hcs]
          exact List.mem_append_right _ List.mem_cons_self
        obtain ⟨j, -, hj⟩ := List.mem_map.mp hset
        cases hj

theorem logConfigEvents_of_badLevel (h : r.BadLevel) : r.logConfigEvents = [] := by
  obtain ⟨name, hname, hbad⟩ := h
  rw [logConfigEvents, hname]
  exact if_pos (not_le.mp fun hle => hbad (levelFromName_nonneg.mp hle))

theorem logConfigEvents_of_not_badLevel (h : ¬ r.BadLevel) :
    r.logConfigEvents = r.tagsEvents := by
  rw [logConfigEvents]
  cases hname : r.getCStr (some 0) (ascii "level") 16 with
  | none => rfl
  | some name =>
    refine if_neg fun hneg => h ⟨name, hname, fun hmem => ?_⟩
    exact absurd (levelFromName_nonneg.mpr hmem) (not_le.mpr hneg)

/-- **Every entry of `tags` has been checked** before the setter is called iff the request is
refused or all entries but the last one have one value of their own. -/
theorem checksFirst_iff {json : Bytes} (hok : (r.parse json).1 = .ok) :
    ChecksFirst (r.parse json).2.logConfigEvents (r.parse json).2.tagsTokens ↔
      (r.parse json).2.BadLevel ∨
        ¬ (r.parse json).2.PairsUp (r.parse json).2.tagsChildren.length
          ((r.parse json).2.tagsObject.map (· + 1)) ∨
        ∀ child ∈ (r.parse json).2.tagsChildren.dropLast, child.2.width = 1 := by
  by_cases hbad : (r.parse json).2.BadLevel
  · rw [logConfigEvents_of_badLevel hbad]
    exact ⟨fun _ => .inl hbad,
      fun _ => checksFirst_of_checks (fun _ he => absurd he List.not_mem_nil) _⟩
  · rw [logConfigEvents_of_not_badLevel hbad]
    cases htags : (r.parse json).2.tagsObject with
    | none =>
      simp only [tagsTokens, tagsChildren, htags]
      exact ⟨fun _ => .inr (.inr nofun), fun _ _ _ _ _ _ => nofun⟩
    | some tags =>
      obtain ⟨hfind, hobject⟩ := Option.filter_eq_some_iff.mp htags
      obtain ⟨f, before, after, hlists, hjson, hlen, hf, hcount⟩ := parse_object hok hobject
      have hevents : (r.parse json).2.tagsEvents =
          match (r.parse json).2.passEvents false (objectChildren json tags).length
            (some before.length) with
          | (.ok, first) => first ++ ((r.parse json).2.passEvents true
              (objectChildren json tags).length (some before.length)).2
          | (_, first) => first := by
        rw [tagsEvents, hfind, ← hcount, hlen]
        exact if_neg (by rw [hobject]; nofun)
      simp only [tagsTokens, tagsChildren, htags, hjson, hevents, Option.map_some, ← hlen]
      cases hwalk : (r.parse json).2.tagWalk (objectChildren json tags).length
          (some before.length) with
      | none =>
        have hno : ¬ (r.parse json).2.PairsUp (objectChildren json tags).length
            (some before.length) := by
          rw [pairsUp_iff, hwalk]
          nofun
        refine ⟨fun _ => .inr (.inl hno), fun _ => checksFirst_of_checks ?_ _⟩
        have hret := passEvents_of_walk_none hwalk
        have hchecks := (r.parse json).2.passEvents_checks (objectChildren json tags).length
          (some before.length)
        generalize (r.parse json).2.passEvents false (objectChildren json tags).length
          (some before.length) = pass at hret hchecks
        obtain ⟨ret, first⟩ := pass
        cases hret
        exact hchecks
      | some entries =>
        have hpairs : (r.parse json).2.PairsUp (objectChildren json tags).length
            (some before.length) := pairsUp_iff.mpr ⟨entries, hwalk⟩
        rw [passEvents_of_walk hwalk]
        dsimp only
        have hchildren := (childTokens_subset_iff hlists before.length
          (objectChildren json tags)).trans (hlists.walkTokens_eq_iff _ hf)
        rw [← hchildren]
        have hrefused : ((r.parse json).2.BadLevel ∨ ¬ (r.parse json).2.PairsUp
            (objectChildren json tags).length (some before.length) ∨
            childTokens before.length (objectChildren json tags) ⊆
              (r.parse json).2.walkTokens (objectChildren json tags).length
                (some before.length)) ↔
            childTokens before.length (objectChildren json tags) ⊆
              (r.parse json).2.walkTokens (objectChildren json tags).length
                (some before.length) := by
          tauto
        rw [hrefused]
        cases hempty : objectChildren json tags with
        | nil => exact ⟨fun _ _ => nofun, fun _ _ _ _ _ _ _ => nofun⟩
        | cons child rest =>
          rw [hempty] at hwalk
          exact checksFirst_iff_subset List.mem_cons_self (passEvents_true hwalk)

end JsonReader

/-! ## The request -/

section Request

variable {payloadMax resultMax : Nat} {errName : EspErr → Bytes}
  {methods : MethodTable BuiltinState} {slot : Slot payloadMax} {respBuf : Buf resultMax}
  {s : BuiltinState}

/-- The events of a request for `log.config`. -/
def Slot.logEvents (slot : Slot payloadMax) : List LogEvent :=
  if slot.Decodable then slot.params.2.logConfigEvents else []

/-- **A request that is answered `ok:false` has changed nothing.** -/
theorem log_config_atomic (hmax : 256 ≤ resultMax)
    (hfind : findMethod methods slot.method.cstr = some logConfig)
    (herror : AnsweredError (handle errName methods slot respBuf s).1) :
    (handle errName methods slot respBuf s).2 = s := by
  obtain ⟨hanswer, -⟩ := handle_explained hmax hfind (logConfig_explained _ _ s)
  by_cases hruns : slot.Decodable
  · rw [handle_state_of_runs hfind hruns.1 hruns.2]
    rcases logConfig_cases slot.method.cstr slot.params.2 s with
      ⟨entries, -, hrun, -⟩ | hrefused
    · have hok := hanswer.mpr ⟨hruns.1, hruns.2, congrArg HandlerRun.ret hrun⟩
      exact absurd herror (not_answeredError_of_answeredOk hok)
    · exact congrArg Prod.snd hrefused
  · exact handle_state_of_not_decodable hfind hruns

/-- **`log.config` checks before it applies.** A request that is answered `ok:false` has changed
no level and no switch, and every entry of `tags` has been checked before the setter is called,
if and only if the request cannot be decoded, its level is no level name, the tokens of `tags`
are not a tag and a level name in turn, or all entries but the last one have one value of their
own. -/
theorem log_config_checked_iff (hmax : 256 ≤ resultMax)
    (hfind : findMethod methods slot.method.cstr = some logConfig) :
    ((AnsweredError (handle errName methods slot respBuf s).1 →
        (handle errName methods slot respBuf s).2 = s) ∧
      JsonReader.ChecksFirst slot.logEvents slot.params.2.tagsTokens) ↔
    ¬ slot.Decodable ∨ slot.params.2.BadLevel ∨
      ¬ slot.params.2.PairsUp slot.params.2.tagsChildren.length
        (slot.params.2.tagsObject.map (· + 1)) ∨
      ∀ child ∈ slot.params.2.tagsChildren.dropLast, child.2.width = 1 := by
  have hatomic : AnsweredError (handle errName methods slot respBuf s).1 →
      (handle errName methods slot respBuf s).2 = s := log_config_atomic hmax hfind
  by_cases hruns : slot.Decodable
  · have hevents : slot.logEvents = slot.params.2.logConfigEvents := if_pos hruns
    have hiff := JsonReader.checksFirst_iff (r := .new 32) hruns.2
    rw [hevents]
    constructor
    · rintro ⟨-, hchecks⟩
      exact .inr (hiff.mp hchecks)
    · rintro (hno | h)
      · exact absurd hruns hno
      · exact ⟨hatomic, hiff.mpr h⟩
  · have hevents : slot.logEvents = [] := if_neg hruns
    rw [hevents]
    refine ⟨fun _ => .inl hruns, fun _ => ⟨hatomic, ?_⟩⟩
    exact JsonReader.checksFirst_of_checks (fun _ he => absurd he List.not_mem_nil) _

end Request

theorem find_logConfig (params : Bytes) (h : params.length ≤ 256) :
    findMethod logMethods (requestSample (ascii "log.config") params h).method.cstr =
      some logConfig := by
  have hname : (requestSample (ascii "log.config") params h).method.cstr = ascii "log.config" := by
    show (slotSample (ascii "log.config")).method.cstr = _
    decide
  rw [hname]
  rfl

/-- A request with two tags. -/
def tagsRequestSample : Slot 256 :=
  requestSample (ascii "log.config")
    (ascii "\x7b\"tags\":\x7b\"wifi\":\"info\",\"ota\":\"loud\"\x7d\x7d")

/-- The second tag is refused, and the first one keeps its level. -/
theorem log_config_checked_sample :
    (AnsweredError (handle errNameSample logMethods tagsRequestSample (.zero 256) .sample).1 →
        (handle errNameSample logMethods tagsRequestSample (.zero 256) .sample).2 = .sample) ∧
      JsonReader.ChecksFirst tagsRequestSample.logEvents tagsRequestSample.params.2.tagsTokens :=
  (log_config_checked_iff (by decide) (find_logConfig _ _)).mpr
    (.inr (.inr (.inr (by decide +kernel))))

/-- A request in which the first tag has a second and a third value. -/
def crowdedTagsSample : Slot 256 :=
  requestSample (ascii "log.config")
    (ascii "\x7b\"tags\":\x7b\"wifi\":\"info\" \"mqtt\" \"warn\",\"ota\":\"loud\"\x7d\x7d")

/-- The setter is called twice, and the second tag is never looked at. -/
theorem log_config_unchecked :
    ¬ ∀ (slot : Slot 256) (s : BuiltinState),
      findMethod logMethods slot.method.cstr = some logConfig →
      (AnsweredError (handle errNameSample logMethods slot (.zero 256) s).1 →
        (handle errNameSample logMethods slot (.zero 256) s).2 = s) ∧
      JsonReader.ChecksFirst slot.logEvents slot.params.2.tagsTokens := by
  intro hall
  obtain ⟨-, hchecks⟩ := hall crowdedTagsSample .sample (find_logConfig _ _)
  have hota := hchecks [.checked 3, .checked 5, .checked 3] (ascii "wifi") 3
    [.checked 5, .setTag (ascii "mqtt") 2] (by decide +kernel) 7 (by decide +kernel)
  revert hota
  decide

/-! ## The level of a document -/

/-- The value is a string that stands for a level name. -/
def NamesLevel (v : Value) : Prop :=
  ∃ s name, v = .string s ∧ JsonReader.Spells (spelled s) name ∧ name ∈ levelNames

/-- The document's level is a level name: the value of the first member whose key stands for
`level`, however the key is spelled. -/
def LevelNamed (d : Document) : Prop :=
  ∃ v, d.members.meant? (ascii "level") = some v ∧ NamesLevel v

/-- The value is a string that fits `char name[16]` and is no level name there. -/
def FitsButNamesNone (v : Value) : Prop :=
  ∃ s text, v = .string s ∧ JsonReader.Spells (spelled s) text ∧ text.length ≤ 15 ∧
    cstr text ∉ levelNames

/-- The document has a member `tags` that is no object or has an invalid member. -/
def TagsRefused (d : Document) : Prop :=
  match d.members.lookup? (ascii "tags") with
  | none => False
  | some (.object tags) => JsonReader.memberTags tags = none
  | some _ => True

/-- What becomes of the level of a document: only a level name is accepted, and nothing is set for
any other value. -/
structure LevelDecides (d : Document) (decoded : EspErr × LogConfig × List (Bytes × Int)) :
    Prop where
  accepted : decoded.1 = .ok → LevelNamed d
  refused : ¬ LevelNamed d → decoded.1 = .invalidArg ∧ decoded.2.2 = []

namespace JsonReader

variable {r : JsonReader}

/-- What `get_str` makes of a level: the C string, if there is room for it. -/
theorem stringOf_of_spells {s : Str} {text : Bytes} (h : Spells (spelled s) text) :
    stringOf 16 (.string s) = if text.length ≤ 15 then some (cstr text) else none := by
  rw [stringOf, h.unescape_eq]
  split_ifs <;> rfl

/-- The level of a document is refused iff the first member that is spelled `level` is a string
that fits and is no level name. -/
theorem badLevel_document {d : Document} (hle : d.count ≤ r.maxTokens) :
    (r.parse d.bytes).2.BadLevel ↔
      ∃ w, d.members.lookup? (ascii "level") = some w ∧ FitsButNamesNone w := by
  rw [badLevel_iff, (decodeLogConfig_document hle).1]
  constructor
  · rintro ⟨level, hname, hneg⟩
    obtain ⟨name, hname, hnum⟩ := Option.map_eq_some_iff.mp hname
    obtain ⟨w, hlookup, hname⟩ := Option.bind_eq_some_iff.mp hname
    refine ⟨w, hlookup, ?_⟩
    cases w with
    | string s =>
      obtain ⟨text, htext⟩ := exists_spells s
      rw [stringOf_of_spells htext] at hname
      split_ifs at hname with hfits
      obtain rfl : cstr text = name := Option.some.inj hname
      refine ⟨s, text, rfl, htext, hfits, fun hmem => ?_⟩
      exact absurd (levelFromName_nonneg.mpr hmem) (not_le.mpr (hnum ▸ hneg))
    | object members | array elements | number n | literal l => cases hname
  · rintro ⟨w, hlookup, s, text, rfl, htext, hfits, hno⟩
    refine ⟨levelFromName (cstr text), ?_, ?_⟩
    · rw [hlookup, Option.bind_some, stringOf_of_spells htext, if_pos hfits]
      rfl
    · exact not_le.mp fun hnonneg => hno (levelFromName_nonneg.mp hnonneg)

theorem tagsRefused_iff {d : Document} (hle : d.count ≤ r.maxTokens) :
    (r.parse d.bytes).2.listedTags = none ↔ TagsRefused d := by
  rw [(decodeLogConfig_document hle).2, TagsRefused]
  cases d.members.lookup? (ascii "tags") with
  | none => exact ⟨nofun, nofun⟩
  | some v =>
    cases v with
    | object tags => exact Iff.rfl
    | array elements | string s | number n | literal l => exact ⟨fun _ => trivial, fun _ => rfl⟩

/-- **The level of a document.** Its first member whose key stands for `level` is accepted only if
it is a level name and refuses the request otherwise, if and only if it is a level name, or the
first member whose key is spelled `level` is a string that fits its buffer and is no level name
there, or the tags are refused. -/
theorem level_refused_iff {d : Document} (hle : d.count ≤ r.maxTokens) (out : LogConfig) :
    LevelDecides d ((r.parse d.bytes).2.decodeLogConfig out logTag []) ↔
      LevelNamed d ∨
        (∃ w, d.members.lookup? (ascii "level") = some w ∧ FitsButNamesNone w) ∨
        TagsRefused d := by
  rw [← badLevel_document hle, ← tagsRefused_iff hle]
  rcases (r.parse d.bytes).2.decodeLogConfig_calls out with
    ⟨hgood, entries, hentries, hret, hcalls⟩ | ⟨hrefused, hret, hcalls⟩
  · constructor
    · intro h
      exact .inl (h.accepted hret)
    · rintro (hnames | hbad | hnone)
      · exact ⟨fun _ => hnames, fun hno => absurd hnames hno⟩
      · exact absurd hbad hgood
      · rw [hentries] at hnone
        cases hnone
  · refine ⟨fun _ => .inr hrefused, fun _ => ⟨fun hok => ?_, fun _ => ⟨hret, hcalls⟩⟩⟩
    rw [hret] at hok
    cases hok

/-- A document with nothing but a level. -/
def levelDocument (v : Value) : Document :=
  ⟨.none, .cons .none (escapeStr (ascii "level")) .none .none v .none (.nil .none), .none⟩

theorem level_refused_sample :
    LevelDecides (levelDocument (.string (escapeStr (ascii "info"))))
      (((new 32).parse (levelDocument (.string (escapeStr (ascii "info")))).bytes).2.decodeLogConfig
        .unchanged logTag []) := by
  have hspells : Spells (spelled (escapeStr (ascii "info"))) (ascii "info") :=
    ((@unescape_eq_some_iff 15 _ _).mp (by decide +kernel)).1
  exact (level_refused_iff (by decide +kernel) _).mpr
    (.inl ⟨_, by rfl, _, _, rfl, hspells, by decide⟩)

/-- A level that is no string at all is accepted. -/
theorem level_ignored :
    ¬ ∀ (d : Document) (v : Value), d.count ≤ 32 →
      d.members.meant? (ascii "level") = some v →
      LevelDecides d (((new 32).parse d.bytes).2.decodeLogConfig .unchanged logTag []) := by
  intro hall
  have hdecides := hall (levelDocument (.literal .null)) (.literal .null) (by decide) (by rfl)
  obtain ⟨v, hv, s, name, rfl, -⟩ := hdecides.accepted (by decide +kernel)
  have hnull : (levelDocument (.literal .null)).members.meant? (ascii "level") =
      some (.literal .null) := by
    rfl
  cases hnull.symm.trans hv

end JsonReader

end SoulCloud
