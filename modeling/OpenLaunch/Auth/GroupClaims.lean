import OpenLaunch.Python.Dict
import OpenLaunch.Python.Glob
import OpenLaunch.Python.Json
import Mathlib.Data.List.Infix
import Mathlib.Data.List.SplitOn

/-! # Groups that an identity provider names

The groups of a user are in a claim of the provider's data, which may be nested: each part of the
claim's name is looked up in what the part before it has led to. Groups whose names match a blocked
pattern are not to be changed. -/

namespace OpenLaunch.Auth

open Python

/-! ## Blocked groups -/

/-- What `re.search` comes to: it finds something or not, or the pattern is no regular expression,
or another exception is raised. -/
inductive Search
  | found (matched : Bool)
  | reError
  | raises (e : PyErr)

/-- A character that makes a pattern be tried as a regular expression. -/
def isRegexChar (c : Char) : Bool :=
  c ∈ ['^', '$', '[', ']', '(', ')', '\x7b', '\x7d', '+', '\\', '|']

/-- The regular expression of a pattern, if it can be one. -/
def searchPattern (re_search : String → String → Search) (group_pattern group_name : String) :
    Search :=
  if group_pattern.toList.any isRegexChar then re_search group_pattern group_name else .found false

/-- The shell-style wildcards of a pattern. -/
def matchesWildcards (group_pattern group_name : String) : Bool :=
  group_pattern.toList.any (fun c => c = '*' || c = '?') && fnmatchcase group_name group_pattern

/-- `is_in_blocked_groups`. -/
def is_in_blocked_groups (re_search : String → String → Search) (group_name : String) :
    List String → Except PyErr Bool
  | [] => .ok false
  | group_pattern :: groups =>
    if group_pattern = "" then is_in_blocked_groups re_search group_name groups
    else if group_name = group_pattern then .ok true
    else
      match searchPattern re_search group_pattern group_name with
      | .raises e => .error e
      | .found true => .ok true
      -- without a match, and also for what is no regular expression, the wildcards are next
      | _ =>
        if matchesWildcards group_pattern group_name then .ok true
        else is_in_blocked_groups re_search group_name groups

/-! ## The claim -/

/-- The parts between the occurrences of `sep`, where the first `k` characters are skipped. -/
def splitFrom (sep : List Char) : ℕ → List Char → List Char → List (List Char)
  | _, piece, [] => [piece]
  | k + 1, piece, _ :: s => splitFrom sep k piece s
  | 0, piece, c :: s =>
    if sep.isPrefixOf (c :: s) then piece :: splitFrom sep (sep.length - 1) [] s
    else splitFrom sep 0 (piece ++ [c]) s

/-- `s.split(sep)`, which raises for an empty separator. -/
def splitText (sep s : String) : Except PyErr (List String) :=
  if sep = "" then .error .valueError
  else .ok ((splitFrom sep.toList 0 [] s.toList).map String.ofList)

/-- The loop over the parts of the claim's name: `claim_data = claim_data.get(nested_claim, {})`. -/
def nestedClaim (claim_data : Json) : List String → Except PyErr Json
  | [] => .ok claim_data
  | nested_claim :: nested_claims =>
    match claim_data with
    | .dict kvs => nestedClaim ((Assoc.get? kvs nested_claim).getD (.dict [])) nested_claims
    | _ => .error .attributeError

/-- `oauth_claim.split('.')`. -/
def claimParts (oauth_claim : String) : List String :=
  (oauth_claim.toList.splitOn '.').map String.ofList

/-- The names in what the claim leads to. -/
def namesOf (separator : String) : Json → Except PyErr (List Json)
  | .list names => .ok names
  | .str s =>
    if separator.toList <:+: s.toList then (splitText separator s).map (List.map Json.str)
    else .ok [.str s]
  | _ => .ok []

/-- `user_oauth_groups`. -/
def userOauthGroups (oauth_claim : Option String) (separator : String) (user_data : Json) :
    Except PyErr (List Json) :=
  match oauth_claim with
  | none => .ok []
  | some claim =>
    if claim = "" then .ok []
    else do
      let claim_data ← nestedClaim user_data (claimParts claim)
      namesOf separator claim_data

/-! ## Claims that can be read -/

/-- **Only dictionaries on the way**: what a part of the claim's name is looked up in is one. -/
def OnlyDicts (claim_data : Json) : List String → Prop
  | [] => True
  | nested_claim :: nested_claims => ∃ kvs, claim_data = .dict kvs ∧
      OnlyDicts ((Assoc.get? kvs nested_claim).getD (.dict [])) nested_claims

variable {separator : String} {user_data claim_data : Json} {oauth_claim : Option String}

theorem nestedClaim_ok_iff {parts : List String} :
    (∃ v, nestedClaim claim_data parts = .ok v) ↔ OnlyDicts claim_data parts := by
  induction parts generalizing claim_data with
  | nil => exact ⟨fun _ => trivial, fun _ => ⟨claim_data, rfl⟩⟩
  | cons part parts ih =>
    rw [OnlyDicts]
    constructor
    · rintro ⟨v, hv⟩
      unfold nestedClaim at hv
      split at hv
      · next kvs => exact ⟨kvs, rfl, ih.mp ⟨v, hv⟩⟩
      · cases hv
    · rintro ⟨kvs, rfl, h⟩
      exact ih.mpr h

/-- There is no text to split at an empty separator. -/
theorem namesOf_ok_iff : (∃ names, namesOf separator claim_data = .ok names) ↔
    (separator = "" → ∀ s, claim_data ≠ .str s) := by
  unfold namesOf
  split
  · exact ⟨fun _ _ _ => Json.noConfusion, fun _ => ⟨_, rfl⟩⟩
  · next s =>
    constructor
    · rintro ⟨names, hnames⟩ rfl
      have hoccurs : "".toList <:+: s.toList := List.nil_infix
      rw [if_pos hoccurs, splitText, if_pos rfl] at hnames
      cases hnames
    · intro h
      have hne : separator ≠ "" := fun heq => h heq s rfl
      split_ifs
      · rw [splitText, if_neg hne]
        exact ⟨_, rfl⟩
      · exact ⟨_, rfl⟩
  · next hlist hstr => exact ⟨fun _ _ s hs => hstr s hs, fun _ => ⟨_, rfl⟩⟩

/-- **A claim that can be read**: there are only dictionaries on the way, and no text at the end of
it if the separator is empty. -/
def Readable (oauth_claim : Option String) (separator : String) (user_data : Json) : Prop :=
  ∀ claim ∈ oauth_claim, claim ≠ "" → OnlyDicts user_data (claimParts claim) ∧
    (separator = "" → ∀ s, nestedClaim user_data (claimParts claim) ≠ .ok (.str s))

theorem userOauthGroups_ok_iff :
    (∃ names, userOauthGroups oauth_claim separator user_data = .ok names) ↔
      Readable oauth_claim separator user_data := by
  unfold userOauthGroups Readable
  cases oauth_claim with
  | none => exact ⟨fun _ => nofun, fun _ => ⟨[], rfl⟩⟩
  | some claim =>
    simp only [Option.mem_def, Option.some.injEq, forall_eq']
    by_cases hclaim : claim = ""
    · rw [if_pos hclaim]
      exact ⟨fun _ hne => absurd hclaim hne, fun _ => ⟨[], rfl⟩⟩
    · rw [if_neg hclaim]
      constructor
      · rintro ⟨names, hnames⟩ -
        obtain ⟨v, hv, hread⟩ := bind_eq_ok.mp hnames
        refine ⟨nestedClaim_ok_iff.mp ⟨v, hv⟩, fun hsep s hs => ?_⟩
        rw [hv, Except.ok.injEq] at hs
        exact namesOf_ok_iff.mp ⟨names, hread⟩ hsep s hs
      · intro h
        obtain ⟨hdicts, hsep⟩ := h hclaim
        obtain ⟨v, hv⟩ := nestedClaim_ok_iff.mpr hdicts
        have hread : separator = "" → ∀ s, v ≠ .str s := by
          rintro heq s rfl
          exact hsep heq s hv
        obtain ⟨names, hnames⟩ := namesOf_ok_iff.mpr hread
        exact ⟨names, bind_eq_ok.mpr ⟨v, hv, hnames⟩⟩

end OpenLaunch.Auth
