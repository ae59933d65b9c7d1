import OpenLaunch.Retrieval.SourcesConfined

/-! # Names of collections that pass the filter

`filter_accessible_collections` takes each name by the rule for its beginning, once a regular
expression has accepted the name. The expression ends in `$`, which also matches before a newline
that ends the name. -/

namespace OpenLaunch.Retrieval

open Python Access

variable {settings : Settings} {s : Tables} {user : User} {access_type name n : String}
variable {names result : List String}

/-! ## The regular expression -/

/-- 1 to 255 of the characters `A-Z`, `a-z`, `0-9`, `_` and `-`. -/
def IsWord (name : String) : Prop :=
  1 ≤ name.toList.length ∧ name.toList.length ≤ 255 ∧ ∀ c ∈ name.toList, isNameChar c = true

/-- A word with a newline at the end. -/
def IsLine (name : String) : Prop := ∃ w, IsWord w ∧ name = w ++ "\n"

/-- A newline is no character of a name. -/
theorem not_isWord_of_isLine (h : IsLine name) : ¬ IsWord name := by
  obtain ⟨w, -, rfl⟩ := h
  intro hword
  have hnewline := hword.2.2 '\n' (by simp)
  exact absurd hnewline (by decide)

/-- **What the regular expression accepts**: words, and words with a newline at the end. -/
theorem is_safe_iff : _is_safe_collection_name name = true ↔ IsWord name ∨ IsLine name := by
  have hword : ∀ cs : List Char, (1 ≤ cs.length && cs.length ≤ 255 && cs.all isNameChar) = true ↔
      IsWord (String.ofList cs) := by
    intro cs
    simp [IsWord, and_assoc]
  rw [_is_safe_collection_name]
  by_cases hlast : name.toList.getLast? = some '\n'
  · -- the word is what is before the newline
    simp only [if_pos hlast]
    have hsplit : name = String.ofList name.toList.dropLast ++ "\n" := by
      obtain ⟨cs, hcs⟩ := List.getLast?_eq_some_iff.mp hlast
      apply String.toList_injective
      rw [String.toList_append, String.toList_ofList, hcs, List.dropLast_concat]
      rfl
    rw [hword]
    constructor
    · exact fun h => .inr ⟨_, h, hsplit⟩
    · rintro (h | ⟨w, hw, rfl⟩)
      · have hmem := List.mem_of_getLast? hlast
        exact absurd (h.2.2 '\n' hmem) (by decide)
      · simpa using hw
  · simp only [if_neg hlast]
    rw [hword, String.ofList_toList]
    constructor
    · exact .inl
    · rintro (h | ⟨w, hw, rfl⟩)
      · exact h
      · exact absurd (by simp) hlast

/-! ## The rules -/

/-- The access rule for a name, by what the collection holds. -/
def Allowed (settings : Settings) (s : Tables) (user : User) (access_type name : String) : Prop :=
  match contentOf name with
  | .system => False
  | .file id => has_access_to_file s id access_type user = .ok true
  | .memory _ => name = "user-memory-" ++ user.id
  | .webSearch => True
  | .knowledge id => s.check_access_by_user_id id user.id access_type = true ∨
      settings.ENABLE_RETRIEVAL_UNSCOPED_COLLECTIONS = true ∧ s.get_knowledge_by_id id = none

/-- The loop keeps a name by the rule. -/
theorem keepsCollection_iff :
    keepsCollection settings s user access_type name = .ok true ↔
      Allowed settings s user access_type name := by
  rw [keepsCollection, Allowed, contentOf]
  by_cases hsystem : name = "knowledge-bases"
  · simp [hsystem]
  by_cases hfile : startsWith name "file-" = true
  · simp [hsystem, hfile]
  by_cases hmemory : startsWith name "user-memory-" = true
  · simp [hsystem, hfile, hmemory]
  by_cases hweb : startsWith name "web-search-" = true
  · simp [hsystem, hfile, hmemory, hweb]
  by_cases hcheck : s.check_access_by_user_id name user.id access_type = true
  · simp [hsystem, hfile, hmemory, hweb, hcheck]
  · simp [hsystem, hfile, hmemory, hweb, hcheck]

/-- What the loop keeps. -/
theorem mem_validate (h : validate settings s user access_type names = .ok result) :
    n ∈ result ↔ n ∈ names ∧ Allowed settings s user access_type n := by
  simp only [← keepsCollection_iff]
  induction names generalizing result with
  | nil =>
    cases h
    simp
  | cons name names ih =>
    obtain ⟨keeps, hkeeps, h⟩ := bind_eq_ok.mp h
    obtain ⟨rest, hrest, h⟩ := bind_eq_ok.mp h
    have hresult : result = if keeps then name :: rest else rest := (Except.ok.inj h).symm
    rw [hresult, List.mem_cons]
    cases keeps with
    | false =>
      rw [if_neg Bool.false_ne_true, ih hrest]
      refine ⟨fun ⟨hn, hkeep⟩ => ⟨.inr hn, hkeep⟩, ?_⟩
      rintro ⟨rfl | hn, hkeep⟩
      · rw [hkeeps] at hkeep
        cases hkeep
      · exact ⟨hn, hkeep⟩
    | true =>
      rw [if_pos rfl, List.mem_cons, ih hrest]
      constructor
      · rintro (rfl | ⟨hn, hkeep⟩)
        · exact ⟨.inl rfl, hkeeps⟩
        · exact ⟨.inr hn, hkeep⟩
      · rintro ⟨rfl | hn, hkeep⟩
        · exact .inl rfl
        · exact .inr ⟨hn, hkeep⟩

/-- **What the filter returns**: the names that the expression accepts, and of those for a user that
is no admin the ones that the rule allows. -/
theorem mem_filter_accessible_collections
    (h : filter_accessible_collections settings s (names.map Json.str) user access_type =
      .ok result) :
    n ∈ result ↔ n ∈ names ∧ (IsWord n ∨ IsLine n) ∧
      (user.role = "admin" ∨ Allowed settings s user access_type n) := by
  have hstr : (names.map Json.str).filterMap Json.str? = names := by
    rw [List.filterMap_map]
    exact List.filterMap_some
  rw [filter_accessible_collections, hstr] at h
  by_cases hadmin : user.role = "admin"
  · rw [if_pos hadmin] at h
    cases h
    simp [hadmin, List.mem_filter, is_safe_iff]
  · rw [if_neg hadmin] at h
    rw [mem_validate h, List.mem_filter, is_safe_iff, and_assoc, or_iff_right hadmin]

/-! ## What the filter is for -/

/-- The names returned are given ones, made of the characters that are allowed; and for a user that
is no admin those of collections for which the access has been checked. -/
structure Filtered (s : Tables) (user : User) (access_type : String) (names result : List String) :
    Prop where
  given : ∀ n ∈ result, n ∈ names
  words : ∀ n ∈ result, IsWord n
  system : user.role ≠ "admin" → "knowledge-bases" ∉ result
  memories : user.role ≠ "admin" → ∀ user_id, user_id ≠ user.id → "user-memory-" ++ user_id ∉ result
  files : user.role ≠ "admin" → ∀ n ∈ result, ∀ id, contentOf n = .file id →
    has_access_to_file s id access_type user = .ok true
  knowledge : user.role ≠ "admin" → ∀ n ∈ result, ∀ id, contentOf n = .knowledge id →
    (s.get_knowledge_by_id id).isSome → s.check_access_by_user_id id user.id access_type = true

theorem contentOf_memory (user_id : String) :
    contentOf ("user-memory-" ++ user_id) = .memory user_id := by
  have hsystem : "user-memory-" ++ user_id ≠ "knowledge-bases" := by
    intro h
    have hchars := congrArg (fun s : String => s.toList.head?) h
    simp at hchars
  have hfile : startsWith ("user-memory-" ++ user_id) "file-" = false := by
    simp [startsWith, List.isPrefixOf]
  have hmemory : startsWith ("user-memory-" ++ user_id) "user-memory-" = true := by
    simp [startsWith, List.isPrefixOf]
  rw [contentOf, if_neg hsystem, hfile, if_neg Bool.false_ne_true, if_pos hmemory]
  simp

/-- **The filter does what it is for** exactly if the user may use no given name that is a word with
a newline at the end. -/
theorem filtered_iff (settings : Settings) (s : Tables) (user : User) (access_type : String)
    (names result : List String)
    (h : filter_accessible_collections settings s (names.map Json.str) user access_type =
      .ok result) :
    Filtered s user access_type names result ↔
      ∀ n ∈ names, IsLine n →
        user.role ≠ "admin" ∧ ¬ Allowed settings s user access_type n := by
  have hmem := fun n =>
    @mem_filter_accessible_collections settings s user access_type n names result h
  have hallowed : user.role ≠ "admin" → ∀ n ∈ result, Allowed settings s user access_type n :=
    fun hadmin n hn => ((hmem n).mp hn).2.2.resolve_left hadmin
  constructor
  · intro hfiltered n hn hline
    rw [← not_or]
    exact fun hmay => not_isWord_of_isLine hline
      (hfiltered.words n ((hmem n).mpr ⟨hn, .inr hline, hmay⟩))
  · intro hlines
    refine ⟨fun n hn => ((hmem n).mp hn).1, fun n hn => ?_, fun hadmin hn => ?_,
      fun hadmin user_id hne hn => ?_, fun hadmin n hn id hid => ?_,
      fun hadmin n hn id hid hsome => ?_⟩
    · obtain ⟨hgiven, hword | hline, hmay⟩ := (hmem n).mp hn
      · exact hword
      · obtain ⟨hadmin, hnot⟩ := hlines n hgiven hline
        exact absurd hmay (by simp [hadmin, hnot])
    · have hrule := hallowed hadmin _ hn
      rw [Allowed, show contentOf "knowledge-bases" = .system from rfl] at hrule
      exact hrule
    · have hrule := hallowed hadmin _ hn
      rw [Allowed, contentOf_memory] at hrule
      exact hne (by simpa using hrule)
    · have hrule := hallowed hadmin n hn
      rw [Allowed, hid] at hrule
      exact hrule
    · have hrule := hallowed hadmin n hn
      rw [Allowed, hid] at hrule
      rcases hrule with hcheck | ⟨-, hnone⟩
      · exact hcheck
      · rw [hnone] at hsome
        cases hsome

/-- The own memories and a web search, for a user with tables that hold nothing else. -/
theorem filtered_own_memory :
    Filtered twoTables ⟨"u", "user"⟩ "read"
      ["user-memory-u", "user-memory-v", "web-search-1", "x y"]
      ["user-memory-u", "web-search-1"] := by
  refine (filtered_iff ⟨false, false, false, false, false⟩ twoTables ⟨"u", "user"⟩ "read"
    ["user-memory-u", "user-memory-v", "web-search-1", "x y"] ["user-memory-u", "web-search-1"]
    rfl).mpr ?_
  rintro n hn ⟨w, -, rfl⟩
  -- none of the names ends in a newline
  have hlast : ∀ m ∈ ["user-memory-u", "user-memory-v", "web-search-1", "x y"],
      m.toList.getLast? ≠ some '\n' := by decide
  exact absurd (by simp) (hlast _ hn)

/-- A name with a newline passes the filter, for an admin and for another user. -/
theorem newline_passes :
    filter_accessible_collections ⟨false, false, false, false, false⟩ twoTables [.str "a\n"]
      ⟨"a", "admin"⟩ "read" = .ok ["a\n"] ∧
    filter_accessible_collections ⟨false, false, false, false, false⟩ twoTables
      [.str "web-search-1\n"] ⟨"u", "user"⟩ "read" = .ok ["web-search-1\n"] ∧
    ¬ Filtered twoTables ⟨"a", "admin"⟩ "read" ["a\n"] ["a\n"] ∧
    ¬ Filtered twoTables ⟨"u", "user"⟩ "read" ["web-search-1\n"] ["web-search-1\n"] := by
  refine ⟨rfl, rfl, fun h => ?_, fun h => ?_⟩
  · exact absurd ((h.words "a\n" (by simp)).2.2 '\n' (by simp)) (by decide)
  · exact absurd ((h.words "web-search-1\n" (by simp)).2.2 '\n' (by simp)) (by decide)

end OpenLaunch.Retrieval
