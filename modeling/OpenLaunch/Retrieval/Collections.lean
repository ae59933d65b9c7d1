import OpenLaunch.Retrieval.FileAccess

/-! # The collections of the vector store

The chunks of a file, of a knowledge base, of the memories of a user and of a web search are each in
a collection of the vector store, which is found by a name. Names come from the client, so they are
filtered before the collections are searched. -/

namespace OpenLaunch.Retrieval

open Python Access

/-! ## Names -/

/-- A character of `[A-Za-z0-9_-]`. -/
def isNameChar (c : Char) : Bool := c.isAlphanum || c = '_' || c = '-'

/-- `_SAFE_COLLECTION_NAME_RE.match(name)`; `$` also matches before a newline that ends the name. -/
def _is_safe_collection_name (name : String) : Bool :=
  let cs := name.toList
  let word := if cs.getLast? = some '\n' then cs.dropLast else cs
  1 ≤ word.length && word.length ≤ 255 && word.all isNameChar

/-- The settings of the deployment. -/
structure Settings where
  BYPASS_RETRIEVAL_ACCESS_CONTROL : Bool
  ENABLE_RETRIEVAL_UNSCOPED_COLLECTIONS : Bool
  /-- `rag.bypass_embedding_and_retrieval`. -/
  bypass_embedding_and_retrieval : Bool
  /-- `rag.enable_hybrid_search`. -/
  enable_hybrid_search : Bool
  /-- `rag.enable_hybrid_search_enriched_texts`. -/
  enable_enriched_texts : Bool

/-- `name.startswith(start)`. -/
def startsWith (name start : String) : Bool := start.toList.isPrefixOf name.toList

/-- Whether the loop of `filter_accessible_collections` keeps a name. -/
def keepsCollection (settings : Settings) (s : Tables) (user : User) (access_type name : String) :
    Except PyErr Bool :=
  if name = "knowledge-bases" then .ok false
  else if startsWith name "file-" then
    has_access_to_file s (String.ofList (name.toList.drop 5)) access_type user
  else if startsWith name "user-memory-" then .ok (name = "user-memory-" ++ user.id)
  else if startsWith name "web-search-" then .ok true
  else if s.check_access_by_user_id name user.id access_type then .ok true
  else .ok (settings.ENABLE_RETRIEVAL_UNSCOPED_COLLECTIONS && (s.get_knowledge_by_id name).isNone)

/-- The loop of `filter_accessible_collections`. -/
def validate (settings : Settings) (s : Tables) (user : User) (access_type : String) :
    List String → Except PyErr (List String)
  | [] => .ok []
  | name :: names => do
    let keeps ← keepsCollection settings s user access_type name
    let validated ← validate settings s user access_type names
    return if keeps then name :: validated else validated

/-- `filter_accessible_collections`. -/
def filter_accessible_collections (settings : Settings) (s : Tables) (collection_names : List Json)
    (user : User) (access_type : String) : Except PyErr (List String) :=
  let safe_names := (collection_names.filterMap Json.str?).filter _is_safe_collection_name
  if user.role = "admin" then .ok safe_names else validate settings s user access_type safe_names

/-! ## Search -/

/-- What a retrieval returns. -/
structure QueryResult where
  documents : List (List Json)
  metadatas : List (List Json)
  distances : Option (List (List Json))
  deriving DecidableEq

/-- The vector store, the embeddings and the rerankers. A collection is known by its contents. -/
structure VectorStore (γ : Type) where
  /-- `VECTOR_DB_CLIENT.get`. -/
  get : γ → Except PyErr (Option QueryResult)
  /-- `VECTOR_DB_CLIENT.search`. -/
  search : γ → Json → Except PyErr (Option QueryResult)
  /-- `embedding_function` of the queries. -/
  embedding_function : List Json → Except PyErr (List Json)
  /-- `query_doc_with_native_hybrid_search`. -/
  query_doc_with_native_hybrid_search : γ → Json → Option QueryResult
  /-- `query_doc_with_hybrid_search`, without the native one, of the contents that were fetched. -/
  query_doc_with_hybrid_search : γ → QueryResult → Json → Except PyErr QueryResult
  /-- `merge_and_sort_query_results`, which keeps the best documents. -/
  merge_and_sort_query_results : List QueryResult → QueryResult

/-- `x[0]` of a list of lists. -/
def firstList : List (List Json) → Except PyErr (List Json)
  | [] => .error .indexError
  | xs :: _ => .ok xs

/-- `merge_get_results`. -/
def merge_get_results (get_results : List QueryResult) : Except PyErr QueryResult := do
  let combined_documents ← get_results.mapM fun data => firstList data.documents
  let combined_metadatas ← get_results.mapM fun data => firstList data.metadatas
  return ⟨[combined_documents.flatten], [combined_metadatas.flatten], none⟩

section Search

variable {γ : Type} (v : VectorStore γ) (settings : Settings)

/-- `get_all_items_from_collections`; a collection that cannot be read is left out. -/
def get_all_items_from_collections (contents : String → γ) (collection_names : List String) :
    Except PyErr QueryResult :=
  merge_get_results <| collection_names.filterMap fun collection_name =>
    if collection_name = "" then none else (v.get (contents collection_name)).toOption.join

/-- The searches of one collection with each of the queries, by `query_doc_with_hybrid_search`. -/
def hybridSearches (contents : String → γ) (queries : List Json) (collection_name : String) :
    List (Except PyErr QueryResult) :=
  match (v.get (contents collection_name)).toOption.join with
  | none => []
  | some collection_result => queries.map
      (v.query_doc_with_hybrid_search (contents collection_name) collection_result)

/-- `query_collection_with_hybrid_search`. -/
def query_collection_with_hybrid_search (contents : String → γ) (collection_names : List String)
    (queries : List Json) : Except PyErr QueryResult :=
  let native_task_results := collection_names.flatMap fun collection_name =>
    queries.map (v.query_doc_with_native_hybrid_search (contents collection_name))
  if !settings.enable_enriched_texts && native_task_results ≠ [] &&
      native_task_results.all Option.isSome then
    .ok (v.merge_and_sort_query_results native_task_results.reduceOption)
  else
    let task_results := collection_names.flatMap (hybridSearches v contents queries)
    let results := task_results.filterMap Except.toOption
    if results = [] ∧ task_results ≠ [] then .error .runtimeError
    else .ok (v.merge_and_sort_query_results results)

/-- `query_collection`: the hybrid search if it is enabled and does not fail, or else the search by
vectors. -/
def query_collection (contents : String → γ) (collection_names : List String)
    (queries : List Json) : Except PyErr QueryResult :=
  let hybrid := query_collection_with_hybrid_search v settings contents collection_names queries
  if settings.enable_hybrid_search && hybrid.toOption.isSome then hybrid
  else
    let queries := queries.filter Json.truthy
    if queries = [] then .ok ⟨[[]], [[]], some [[]]⟩
    else do
      let query_embeddings ← v.embedding_function queries
      return v.merge_and_sort_query_results <| query_embeddings.flatMap fun query_embedding =>
        collection_names.filterMap fun collection_name =>
          if collection_name = "" then none
          else (v.search (contents collection_name) query_embedding).toOption.join

/-- The search of the collections, or `None` where it fails. -/
def searchCollections (full_context : Bool) (contents : String → γ) (collection_names : List String)
    (queries : List Json) : Option QueryResult :=
  (if full_context then get_all_items_from_collections v contents collection_names
    else query_collection v settings contents collection_names queries).toOption

/-- **A search reads the collections it is given** and no others. -/
theorem searchCollections_congr {v : VectorStore γ} {settings : Settings} {full_context : Bool}
    {contents contents' : String → γ} {collection_names : List String} {queries : List Json}
    (h : ∀ name ∈ collection_names, contents name = contents' name) :
    searchCollections v settings full_context contents collection_names queries =
      searchCollections v settings full_context contents' collection_names queries := by
  have hall : get_all_items_from_collections v contents collection_names =
      get_all_items_from_collections v contents' collection_names := by
    refine congrArg merge_get_results (List.filterMap_congr fun name hname => ?_)
    rw [h name hname]
  have hnative : (collection_names.flatMap fun name =>
        queries.map (v.query_doc_with_native_hybrid_search (contents name))) =
      collection_names.flatMap fun name =>
        queries.map (v.query_doc_with_native_hybrid_search (contents' name)) := by
    refine List.flatMap_congr fun name hname => ?_
    rw [h name hname]
  have hsearches : collection_names.flatMap (hybridSearches v contents queries) =
      collection_names.flatMap (hybridSearches v contents' queries) := by
    refine List.flatMap_congr fun name hname => ?_
    rw [hybridSearches, hybridSearches, h name hname]
  have hvectors : ∀ query_embedding, (collection_names.filterMap fun name =>
        if name = "" then none else (v.search (contents name) query_embedding).toOption.join) =
      collection_names.filterMap fun name =>
        if name = "" then none
        else (v.search (contents' name) query_embedding).toOption.join := by
    intro query_embedding
    refine List.filterMap_congr fun name hname => ?_
    rw [h name hname]
  rw [searchCollections, searchCollections, hall]
  simp only [query_collection, query_collection_with_hybrid_search, hnative, hsearches, hvectors]

end Search

/-! ## What the filter lets through -/

variable {settings : Settings} {s : Tables} {user : User} {access_type : String}

/-- The filter keeps names only, each of which it would keep alone. -/
theorem keeps_of_mem_validate {names validated : List String}
    (h : validate settings s user access_type names = .ok validated) :
    ∀ name ∈ validated, keepsCollection settings s user access_type name = .ok true := by
  induction names generalizing validated with
  | nil =>
    cases h
    exact fun _ hname => absurd hname List.not_mem_nil
  | cons name names ih =>
    obtain ⟨keeps, hkeeps, h⟩ := bind_eq_ok.mp h
    obtain ⟨rest, hrest, h⟩ := bind_eq_ok.mp h
    have hvalidated : validated = if keeps then name :: rest else rest :=
      (Except.ok.inj h).symm
    intro name' hname'
    rw [hvalidated] at hname'
    cases keeps with
    | false => exact ih hrest name' hname'
    | true =>
      rcases List.mem_cons.mp hname' with rfl | hmem
      · exact hkeeps
      · exact ih hrest name' hmem

end OpenLaunch.Retrieval
