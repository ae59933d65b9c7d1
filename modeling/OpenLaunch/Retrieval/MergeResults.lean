import OpenLaunch.Python.BestScores
import OpenLaunch.Python.Json
import OpenLaunch.Python.Slices

/-! # Merging search results

Each collection is searched for each query, and the results are merged: of the entries with one
document the best is kept, under the hash of the document, and the best `k` entries are returned.
Where there are entries and `k` is such that none of them is returned, the function raises. -/

namespace OpenLaunch.Retrieval

open Python

variable {σ μ κ : Type} [LinearOrder σ] [DecidableEq κ]

/-! ## The code -/

/-- A result of a search, with scores of some type, which the source calls distances. -/
structure ScoredResult (σ μ : Type) where
  distances : List (List σ)
  documents : List (List Json)
  metadatas : List (List μ)
  deriving DecidableEq

/-- A text with its score and its metadata. -/
structure Scored (σ μ : Type) where
  score : σ
  document : String
  metadata : μ
  deriving DecidableEq

/-- The entries of a result whose documents are texts. A result without a list is left out. -/
def ScoredResult.entries (data : ScoredResult σ μ) : List (Scored σ μ) :=
  match data.distances, data.documents, data.metadatas with
  | distances :: _, documents :: _, metadatas :: _ =>
    (distances.zip (documents.zip metadatas)).filterMap fun e =>
      e.2.1.str?.map fun document => ⟨e.1, document, e.2.2⟩
  | _, _, _ => []

/-- The output of entries. -/
def resultOf (entries : List (Scored σ μ)) : ScoredResult σ μ :=
  ⟨[entries.map Scored.score], [entries.map fun e => .str e.document],
    [entries.map Scored.metadata]⟩

/-- The best entries under the digests of their documents, the best one first. -/
def ranking (hash : String → κ) (entries : List (Scored σ μ)) : List (Scored σ μ) :=
  ranked Scored.score
    (bestByKey (fun e : Scored σ μ => hash e.document) Scored.score entries).values

/-- `merge_and_sort_query_results`. `hash` is the digest of a document. -/
def merge_and_sort_query_results (hash : String → κ) (query_results : List (ScoredResult σ μ))
    (k : ℤ) : Except PyErr (ScoredResult σ μ) :=
  let combined := ranking hash (query_results.flatMap ScoredResult.entries)
  match combined, sliceUpTo k combined with
  | [], _ => .ok ⟨[[]], [[]], [[]]⟩
  -- `zip()` of nothing is not three sequences
  | _ :: _, [] => .error .valueError
  | _ :: _, e :: top => .ok (resultOf (e :: top))

/-! ## What it is for -/

/-- **The best `k` documents** among entries, each with its best score and the metadata there. -/
structure Merged (entries : List (Scored σ μ)) (k : ℤ) (top : List (Scored σ μ)) : Prop where
  count : (top.length : ℤ) ≤ k
  distinct : (top.map Scored.document).Nodup
  sorted : top.Pairwise fun e e' => e'.score ≤ e.score
  best : ∀ e ∈ top, e ∈ entries ∧ ∀ e' ∈ entries, e'.document = e.document → e'.score ≤ e.score
  noneBetter : ∀ e ∈ top, ∀ e' ∈ entries, e'.document ∉ top.map Scored.document →
    e'.score ≤ e.score
  full : (top.length : ℤ) < k → ∀ e ∈ entries, e.document ∈ top.map Scored.document

/-- A document with a score. -/
def Scored.pair (e : Scored σ μ) : String × σ := (e.document, e.score)

/-- Different documents have different best scores. -/
def ScoresApart (entries : List (Scored σ μ)) : Prop :=
  ∀ e e', IsBest Scored.document Scored.score entries e →
    IsBest Scored.document Scored.score entries e' → e.score = e'.score → e.document = e'.document

/-- The merge returns the best documents; and in whatever order the results are, the same documents
with the same scores, if no two documents have one best score. -/
def MergesWell (hash : String → κ) (query_results : List (ScoredResult σ μ)) (k : ℤ) : Prop :=
  ∃ top, merge_and_sort_query_results hash query_results k = .ok (resultOf top) ∧
    Merged (query_results.flatMap ScoredResult.entries) k top ∧
    (ScoresApart (query_results.flatMap ScoredResult.entries) →
      ∀ query_results', query_results.Perm query_results' → ∃ top',
        merge_and_sort_query_results hash query_results' k = .ok (resultOf top') ∧
          (top.map Scored.pair).Perm (top'.map Scored.pair))

/-! ## The ranking of the documents -/

/-- No two of the documents have one digest. -/
def NoCollision (hash : String → κ) (entries : List (Scored σ μ)) : Prop :=
  ∀ e ∈ entries, ∀ e' ∈ entries, hash e.document = hash e'.document → e.document = e'.document

variable {hash : String → κ} {entries entries' : List (Scored σ μ)} {e e' : Scored σ μ} {k : ℤ}

theorem ranking_perm (hash : String → κ) (entries : List (Scored σ μ)) : (ranking hash entries).Perm
    (bestByKey (fun e : Scored σ μ => hash e.document) Scored.score entries).values :=
  ranked_perm _

theorem mem_ranking : e ∈ ranking hash entries ↔
    e ∈ (bestByKey (fun e : Scored σ μ => hash e.document) Scored.score entries).values :=
  (ranking_perm hash entries).mem_iff

/-- An entry of the ranking is a best one of its document. -/
theorem isBest_of_mem_ranking (h : e ∈ ranking hash entries) :
    IsBest Scored.document Scored.score entries e := by
  have hkept : IsBest (fun e : Scored σ μ => hash e.document) Scored.score entries e :=
    isBest_of_mem_values (mem_ranking.mp h)
  obtain ⟨hmem, hbest⟩ := hkept
  exact ⟨hmem, fun e' he' hdocument => hbest e' he' (congrArg hash hdocument)⟩

/-- Each document is in the ranking. -/
theorem exists_mem_ranking (hhash : NoCollision hash entries) (h : e ∈ entries) :
    ∃ e' ∈ ranking hash entries, e'.document = e.document := by
  have hkept : ∃ e' ∈ (bestByKey (fun e : Scored σ μ => hash e.document) Scored.score
      entries).values, hash e'.document = hash e.document := exists_mem_values h
  obtain ⟨e', he', hkey⟩ := hkept
  have hmem := mem_ranking.mpr he'
  exact ⟨e', hmem, hhash e' (isBest_of_mem_ranking hmem).1 e h hkey⟩

/-- No document is in the ranking twice. -/
theorem nodup_ranking : ((ranking hash entries).map Scored.document).Nodup := by
  have hkeys : ((bestByKey (fun e : Scored σ μ => hash e.document) Scored.score entries).values.map
      fun e => hash e.document).Nodup := nodup_values entries
  have hperm := (ranking_perm hash entries).map fun e => hash e.document
  refine List.Nodup.of_map hash ?_
  rw [List.map_map]
  exact hperm.nodup_iff.mpr hkeys

/-- **The first `k` of the ranking** are the best `k` documents. -/
theorem merged_take (hhash : NoCollision hash entries) (hk : 0 ≤ k) :
    Merged entries k ((ranking hash entries).take k.toNat) where
  count := by
    have hlength := List.length_take_le k.toNat (ranking hash entries)
    omega
  distinct := nodup_ranking.sublist ((List.take_sublist _ _).map Scored.document)
  sorted := (pairwise_ranked _).sublist (List.take_sublist _ _)
  best := fun e he => isBest_of_mem_ranking (List.mem_of_mem_take he)
  noneBetter := by
    intro e he e' he' hout
    obtain ⟨e₀, he₀, hdocument⟩ := exists_mem_ranking hhash he'
    have hbest := (isBest_of_mem_ranking he₀).2 e' he' hdocument.symm
    refine hbest.trans (le_of_mem_take he (mem_ranking.mp he₀) fun hin => hout ?_)
    rw [← hdocument]
    exact List.mem_map_of_mem hin
  full := by
    intro hlt e he
    obtain ⟨e₀, he₀, hdocument⟩ := exists_mem_ranking hhash he
    have hall : (ranking hash entries).take k.toNat = ranking hash entries := by
      rw [List.length_take] at hlt
      exact List.take_of_length_le (by omega)
    rw [hall, ← hdocument]
    exact List.mem_map_of_mem he₀

/-- The best entries of the documents do not depend on the order of the entries. -/
theorem IsBest.perm (hperm : entries.Perm entries')
    (h : IsBest Scored.document Scored.score entries e) :
    IsBest Scored.document Scored.score entries' e :=
  ⟨hperm.mem_iff.mp h.1, fun e' he' => h.2 e' (hperm.mem_iff.mpr he')⟩

omit [LinearOrder σ] [DecidableEq κ] in
theorem NoCollision.perm (hperm : entries.Perm entries') (h : NoCollision hash entries) :
    NoCollision hash entries' := fun e he e' he' =>
  h e (hperm.mem_iff.mpr he) e' (hperm.mem_iff.mpr he')

/-- The pairs of the ranking are those of the best entries. -/
theorem mem_pairs_ranking (hhash : NoCollision hash entries) {p : String × σ} :
    p ∈ (ranking hash entries).map Scored.pair ↔
      ∃ e, IsBest Scored.document Scored.score entries e ∧ e.pair = p := by
  rw [List.mem_map]
  constructor
  · rintro ⟨e, he, rfl⟩
    exact ⟨e, isBest_of_mem_ranking he, rfl⟩
  · rintro ⟨e, ⟨hmem, hbest⟩, rfl⟩
    obtain ⟨e', he', hdocument⟩ := exists_mem_ranking hhash hmem
    -- two best entries of one document have one score
    have hscore : e'.score = e.score :=
      le_antisymm (hbest e' (isBest_of_mem_ranking he').1 hdocument)
        ((isBest_of_mem_ranking he').2 e hmem hdocument.symm)
    exact ⟨e', he', Prod.ext hdocument hscore⟩

theorem nodup_pairs_ranking : ((ranking hash entries).map Scored.pair).Nodup := by
  refine List.Nodup.of_map Prod.fst ?_
  rw [List.map_map]
  exact nodup_ranking

/-- **The ranking does not depend on the order of the entries**, but for the metadata. -/
theorem map_pair_ranking (hhash : NoCollision hash entries) (hperm : entries.Perm entries')
    (hapart : ScoresApart entries) :
    (ranking hash entries).map Scored.pair = (ranking hash entries').map Scored.pair := by
  have hpairs : ((ranking hash entries).map Scored.pair).Perm
      ((ranking hash entries').map Scored.pair) := by
    refine (List.perm_ext_iff_of_nodup nodup_pairs_ranking nodup_pairs_ranking).mpr fun p => ?_
    rw [mem_pairs_ranking hhash, mem_pairs_ranking (hhash.perm hperm)]
    constructor
    · rintro ⟨e, he, rfl⟩
      exact ⟨e, IsBest.perm hperm he, rfl⟩
    · rintro ⟨e, he, rfl⟩
      exact ⟨e, IsBest.perm hperm.symm he, rfl⟩
  have hvalues : ((bestByKey (fun e : Scored σ μ => hash e.document) Scored.score entries).values.map
      Scored.pair).Perm ((bestByKey (fun e : Scored σ μ => hash e.document) Scored.score
        entries').values.map Scored.pair) :=
    ((ranking_perm hash entries).map Scored.pair).symm.trans
      (hpairs.trans ((ranking_perm hash entries').map Scored.pair))
  refine map_ranked_eq (fun _ => rfl : ∀ e : Scored σ μ, Prod.snd e.pair = e.score) hvalues
    fun p hp p' hp' hscore => ?_
  obtain ⟨e, he, rfl⟩ := List.mem_map.mp hp
  obtain ⟨e', he', rfl⟩ := List.mem_map.mp hp'
  have hdocument := hapart e e' (isBest_of_mem_ranking (mem_ranking.mpr he))
    (isBest_of_mem_ranking (mem_ranking.mpr he')) hscore
  exact Prod.ext hdocument hscore

/-! ## The merge -/

variable {query_results query_results' : List (ScoredResult σ μ)}

/-- With a positive `k`, the first `k` of the ranking are returned. -/
theorem merge_of_pos (hk : 0 < k) : merge_and_sort_query_results hash query_results k =
    .ok (resultOf ((ranking hash (query_results.flatMap ScoredResult.entries)).take k.toNat)) := by
  rw [merge_and_sort_query_results]
  rw [sliceUpTo_of_nonneg hk.le]
  obtain ⟨n, hn⟩ : ∃ n, k.toNat = n + 1 := ⟨k.toNat - 1, by omega⟩
  rw [hn]
  cases ranking hash (query_results.flatMap ScoredResult.entries) with
  | nil => rfl
  | cons e ranked => rfl

/-- With a `k` of zero the code returns nothing where there is nothing to rank, and raises where
there is. -/
theorem merge_zero : merge_and_sort_query_results hash query_results 0 =
    if ranking hash (query_results.flatMap ScoredResult.entries) = [] then .ok (resultOf [])
      else .error .valueError := by
  rw [merge_and_sort_query_results]
  rw [sliceUpTo_of_nonneg (le_refl 0)]
  cases ranking hash (query_results.flatMap ScoredResult.entries) with
  | nil => rfl
  | cons e ranked => rw [if_neg (List.cons_ne_nil e ranked), Int.toNat_zero, List.take_zero]

/-- Nothing is ranked where there is nothing to rank. -/
theorem ranking_eq_nil_iff (hhash : NoCollision hash entries) :
    ranking hash entries = [] ↔ entries = [] := by
  constructor
  · intro h
    refine List.eq_nil_iff_forall_not_mem.mpr fun e he => ?_
    obtain ⟨e', he', -⟩ := exists_mem_ranking hhash he
    rw [h] at he'
    cases he'
  · intro h
    refine List.eq_nil_iff_forall_not_mem.mpr fun e he => ?_
    have hmem := (isBest_of_mem_ranking he).1
    rw [h] at hmem
    cases hmem

/-- **The merge is right** exactly where `k` is positive, or is zero and there is nothing to
return. -/
theorem mergesWell_iff
    (hhash : NoCollision hash (query_results.flatMap ScoredResult.entries)) :
    MergesWell hash query_results k ↔
      0 < k ∨ k = 0 ∧ query_results.flatMap ScoredResult.entries = [] := by
  constructor
  · rintro ⟨top, hmerge, hmerged, -⟩
    have hcount := hmerged.count
    rcases lt_or_eq_of_le ((Int.natCast_nonneg top.length).trans hcount) with hk | hk
    · exact .inl hk
    · subst hk
      rw [merge_zero] at hmerge
      split_ifs at hmerge with hnil
      exact .inr ⟨rfl, (ranking_eq_nil_iff hhash).mp hnil⟩
  · rintro (hk | ⟨rfl, hnil⟩)
    · refine ⟨_, merge_of_pos hk, merged_take hhash hk.le, fun hapart query_results' hperm => ?_⟩
      refine ⟨_, merge_of_pos hk, ?_⟩
      have hentries := hperm.flatMap_right ScoredResult.entries
      rw [List.map_take, List.map_take, map_pair_ranking hhash hentries hapart]
    · have hempty : ∀ query_results' : List (ScoredResult σ μ),
          query_results'.flatMap ScoredResult.entries = [] →
            merge_and_sort_query_results hash query_results' 0 = .ok (resultOf []) := by
        intro query_results' hnil'
        have hhash' : NoCollision hash (query_results'.flatMap ScoredResult.entries) := by
          rw [hnil']
          exact nofun
        rw [merge_zero, if_pos ((ranking_eq_nil_iff hhash').mpr hnil')]
      refine ⟨[], hempty query_results hnil, ?_, fun _ query_results' hperm => ?_⟩
      · have hmerged := merged_take hhash (le_refl 0)
        rw [Int.toNat_zero, List.take_zero] at hmerged
        exact hmerged
      · have hentries := hperm.flatMap_right ScoredResult.entries
        rw [hnil] at hentries
        exact ⟨[], hempty query_results' hentries.symm.eq_nil, .refl _⟩

/-- Two results with one document in both; the better score is kept, with its metadata. -/
theorem merge_two_results :
    NoCollision id ([⟨[[1, 2]], [[.str "a", .str "b"]], [[0, 1]]⟩,
      ⟨[[3]], [[.str "a"]], [[2]]⟩].flatMap (ScoredResult.entries (σ := ℤ) (μ := ℕ))) ∧
    MergesWell id [⟨[[(1 : ℤ), 2]], [[.str "a", .str "b"]], [[(0 : ℕ), 1]]⟩,
      ⟨[[3]], [[.str "a"]], [[2]]⟩] 1 := by
  have hhash : NoCollision id ([⟨[[1, 2]], [[.str "a", .str "b"]], [[0, 1]]⟩,
      ⟨[[3]], [[.str "a"]], [[2]]⟩].flatMap (ScoredResult.entries (σ := ℤ) (μ := ℕ))) :=
    fun e _ e' _ h => h
  exact ⟨hhash, (mergesWell_iff hhash).mpr (.inl (by decide))⟩

/-- With one document to return and a `k` of zero the merge raises. -/
theorem merge_none_wanted : merge_and_sort_query_results id
      [⟨[[(1 : ℤ)]], [[.str "a"]], [[(0 : ℕ)]]⟩] 0 = .error .valueError ∧
    ¬ MergesWell id [⟨[[(1 : ℤ)]], [[.str "a"]], [[(0 : ℕ)]]⟩] 0 := by
  have hraises : merge_and_sort_query_results id
      [⟨[[(1 : ℤ)]], [[.str "a"]], [[(0 : ℕ)]]⟩] 0 = .error .valueError := by
    decide +kernel
  refine ⟨hraises, ?_⟩
  rintro ⟨top, hmerge, -⟩
  rw [hraises] at hmerge
  cases hmerge

end OpenLaunch.Retrieval
