import Mathlib.Data.Int.Notation
import OpenLaunch.Python.Parts

/-! # Merging chunks to a target size

Chunks below the minimum size absorb the next chunk, or are appended to the chunk emitted before,
as long as the result is within the maximum and `can_merge_chunks` allows it. That test looks at
the metadata of one chunk on each side: of a merged chunk it sees only the metadata of the first. -/

namespace OpenLaunch.Retrieval.Chunking

variable {σ φ : Type}

/-! ## The code -/

/-- The metadata of a chunk: its source and its file id, up to Python's equality. The other entries,
which are copied along, are left out. -/
structure ChunkMetadata (σ φ : Type) where
  source : σ
  file_id : Option φ
  deriving DecidableEq

/-- A `Document`. -/
structure Document (σ φ : Type) where
  page_content : List Char
  metadata : ChunkMetadata σ φ
  deriving DecidableEq

/-- The sizes of `RetrievalConfig`. -/
structure ChunkSizes where
  CHUNK_MIN_SIZE_TARGET : ℤ
  CHUNK_SIZE : ℤ

/-- What stands between two contents that are merged. -/
def chunkGap : List Char := ['\n', '\n']

/-- The text of two merged contents. -/
def pasted (content content' : List Char) : List Char := content ++ chunkGap ++ content'

variable [DecidableEq σ] [DecidableEq φ]

/-- `can_merge_chunks`. -/
def can_merge_chunks (a b : Document σ φ) : Bool :=
  if a.metadata.source ≠ b.metadata.source then false
  else match a.metadata.file_id, b.metadata.file_id with
    | some a_file_id, some b_file_id => decide (a_file_id = b_file_id)
    | _, _ => true

section

variable (sizes : ChunkSizes) (measure : List Char → ℤ)

/-- `_merge_backward`: the result with the content appended to its last chunk, if that is done. -/
def _merge_backward (result : List (Document σ φ)) (content : List Char) (chunk : Document σ φ) :
    Option (List (Document σ φ)) :=
  match result.getLast? with
  | none => none
  | some prev =>
    if can_merge_chunks prev chunk = false then none
    else if measure (pasted prev.page_content content) > sizes.CHUNK_SIZE then none
    else some (result.dropLast ++ [⟨pasted prev.page_content content, prev.metadata⟩])

/-- `_emit`. -/
def _emit (result : List (Document σ φ)) (content : List Char) (chunk : Document σ φ) :
    List (Document σ φ) :=
  if measure content < sizes.CHUNK_MIN_SIZE_TARGET then
    (_merge_backward sizes measure result content chunk).getD
      (result ++ [⟨content, chunk.metadata⟩])
  else result ++ [⟨content, chunk.metadata⟩]

/-- The loop over the chunks after the first. -/
def mergeLoop (result : List (Document σ φ)) (current_chunk : Document σ φ)
    (current_content : List Char) : List (Document σ φ) → List (Document σ φ)
  | [] => _emit sizes measure result current_content current_chunk
  | next_chunk :: chunks =>
    if can_merge_chunks current_chunk next_chunk ∧
        measure current_content < sizes.CHUNK_MIN_SIZE_TARGET ∧
        measure (pasted current_content next_chunk.page_content) ≤ sizes.CHUNK_SIZE then
      mergeLoop result current_chunk (pasted current_content next_chunk.page_content) chunks
    else
      mergeLoop (_emit sizes measure result current_content current_chunk) next_chunk
        next_chunk.page_content chunks

/-- `merge_docs_to_target_size`. `measure` is the length function of the splitter. -/
def merge_docs_to_target_size (chunks : List (Document σ φ)) : List (Document σ φ) :=
  if sizes.CHUNK_MIN_SIZE_TARGET ≤ 0 then chunks
  else match chunks with
    | [] => []
    | chunk :: chunks => mergeLoop sizes measure [] chunk chunk.page_content chunks

end

/-! ## Where the text of a result comes from -/

/-- The input chunks that a result chunk combines. -/
structure ChunkGroup (σ φ : Type) where
  first : Document σ φ
  others : List (Document σ φ)
  deriving DecidableEq

namespace ChunkGroup

omit [DecidableEq σ] [DecidableEq φ]

/-- A single chunk. -/
def single (chunk : Document σ φ) : ChunkGroup σ φ := ⟨chunk, []⟩

/-- The chunks of a group, in order. -/
def parts (g : ChunkGroup σ φ) : List (Document σ φ) := g.first :: g.others

/-- One group after another. -/
def append (g h : ChunkGroup σ φ) : ChunkGroup σ φ := ⟨g.first, g.others ++ h.parts⟩

/-- The contents of a group, joined. -/
def content (g : ChunkGroup σ φ) : List Char :=
  chunkGap.intercalate (g.parts.map Document.page_content)

/-- The result chunk of a group: it has the metadata of the first chunk. -/
def document (g : ChunkGroup σ φ) : Document σ φ := ⟨g.content, g.first.metadata⟩

@[simp] theorem parts_single (chunk : Document σ φ) : (single chunk).parts = [chunk] := rfl

@[simp] theorem parts_append (g h : ChunkGroup σ φ) : (g.append h).parts = g.parts ++ h.parts := rfl

@[simp] theorem first_append (g h : ChunkGroup σ φ) : (g.append h).first = g.first := rfl

end ChunkGroup

section

variable (sizes : ChunkSizes) (measure : List Char → ℤ)

/-- The chunk is absorbed by the group before it. -/
def FitsForward (g : ChunkGroup σ φ) (next_chunk : Document σ φ) : Prop :=
  can_merge_chunks g.first next_chunk ∧ measure g.content < sizes.CHUNK_MIN_SIZE_TARGET ∧
    measure (pasted g.content next_chunk.page_content) ≤ sizes.CHUNK_SIZE

/-- The group is appended to the one emitted before it. -/
def FitsBackward (prev g : ChunkGroup σ φ) : Prop :=
  measure g.content < sizes.CHUNK_MIN_SIZE_TARGET ∧ can_merge_chunks prev.first g.first ∧
    measure (pasted prev.content g.content) ≤ sizes.CHUNK_SIZE

instance (g : ChunkGroup σ φ) (next_chunk : Document σ φ) :
    Decidable (FitsForward sizes measure g next_chunk) :=
  inferInstanceAs (Decidable (_ ∧ _ ∧ _))

instance (prev g : ChunkGroup σ φ) : Decidable (FitsBackward sizes measure prev g) :=
  inferInstanceAs (Decidable (_ ∧ _ ∧ _))

/-- `_emit`, on groups. -/
def emitGroup (result : List (ChunkGroup σ φ)) (g : ChunkGroup σ φ) : List (ChunkGroup σ φ) :=
  match result.getLast? with
  | none => result ++ [g]
  | some prev =>
    if FitsBackward sizes measure prev g then result.dropLast ++ [prev.append g]
    else result ++ [g]

/-- The loop, on groups. -/
def groupLoop (result : List (ChunkGroup σ φ)) (current : ChunkGroup σ φ) :
    List (Document σ φ) → List (ChunkGroup σ φ)
  | [] => emitGroup sizes measure result current
  | next_chunk :: chunks =>
    if FitsForward sizes measure current next_chunk then
      groupLoop result (current.append (.single next_chunk)) chunks
    else groupLoop (emitGroup sizes measure result current) (.single next_chunk) chunks

/-- The groups of input chunks that the result chunks combine. -/
def mergedGroups (chunks : List (Document σ φ)) : List (ChunkGroup σ φ) :=
  if sizes.CHUNK_MIN_SIZE_TARGET ≤ 0 then chunks.map .single
  else match chunks with
    | [] => []
    | chunk :: chunks => groupLoop sizes measure [] (.single chunk) chunks

/-! ## The loop on groups follows the code -/

variable {sizes measure}

omit [DecidableEq σ] [DecidableEq φ] in
/-- The content of two groups together. -/
theorem content_append (g h : ChunkGroup σ φ) :
    (g.append h).content = pasted g.content h.content := by
  rw [ChunkGroup.content, ChunkGroup.parts_append, List.map_append,
    Python.intercalate_append (by simp [ChunkGroup.parts]) (by simp [ChunkGroup.parts])]
  rfl

omit [DecidableEq σ] [DecidableEq φ] in
theorem document_append (g h : ChunkGroup σ φ) :
    (g.append h).document = ⟨pasted g.content h.content, g.first.metadata⟩ := by
  rw [ChunkGroup.document, content_append, ChunkGroup.first_append]

omit [DecidableEq σ] [DecidableEq φ] in
@[simp] theorem content_single (chunk : Document σ φ) :
    (ChunkGroup.single chunk).content = chunk.page_content := by
  simp [ChunkGroup.content]

/-- A merged chunk is compared by the metadata of its first part. -/
theorem can_merge_document (g h : ChunkGroup σ φ) :
    can_merge_chunks g.document h.first = can_merge_chunks g.first h.first := rfl

theorem emit_document (result : List (ChunkGroup σ φ)) (g : ChunkGroup σ φ) :
    _emit sizes measure (result.map ChunkGroup.document) g.content g.first =
      (emitGroup sizes measure result g).map ChunkGroup.document := by
  rw [_emit, _merge_backward, emitGroup, List.getLast?_map]
  cases hlast : result.getLast? with
  | none =>
    simp only [Option.map_none, Option.getD_none, ite_self, List.map_append]
    rfl
  | some prev =>
    by_cases hfits : FitsBackward sizes measure prev g
    · obtain ⟨hsmall, hcan, hlarge⟩ := hfits
      have hfits : FitsBackward sizes measure prev g := ⟨hsmall, hcan, hlarge⟩
      have hmax : ¬ measure (pasted prev.document.page_content g.content) > sizes.CHUNK_SIZE :=
        Int.not_lt.mpr hlarge
      simp only [Option.map_some, can_merge_document, hcan, hsmall, hmax, hfits, if_true, if_false,
        Bool.true_eq_false, Option.getD_some, List.map_append, List.map_cons, List.map_nil,
        document_append, List.map_dropLast]
      rfl
    · dsimp only [Option.map_some]
      rw [if_neg hfits, List.map_append]
      by_cases hsmall : measure g.content < sizes.CHUNK_MIN_SIZE_TARGET
      · have hnone : can_merge_chunks prev.document g.first = false ∨
            measure (pasted prev.document.page_content g.content) > sizes.CHUNK_SIZE := by
          by_contra hor
          rw [not_or, Bool.not_eq_false, Int.not_lt] at hor
          exact hfits ⟨hsmall, hor.1, hor.2⟩
        rw [if_pos hsmall]
        rcases hnone with hcan | hmax
        · simp only [hcan, if_true, Option.getD_none]
          rfl
        · simp only [hmax, if_true, ite_self, Option.getD_none]
          rfl
      · rw [if_neg hsmall]
        rfl

variable (sizes measure) in
theorem mergeLoop_document (chunks : List (Document σ φ)) (result : List (ChunkGroup σ φ))
    (current : ChunkGroup σ φ) :
    mergeLoop sizes measure (result.map ChunkGroup.document) current.first current.content chunks =
      (groupLoop sizes measure result current chunks).map ChunkGroup.document := by
  induction chunks generalizing result current with
  | nil => exact emit_document result current
  | cons next_chunk chunks ih =>
    rw [mergeLoop, groupLoop]
    by_cases hfits : FitsForward sizes measure current next_chunk
    · rw [if_pos hfits, if_pos (show _ ∧ _ ∧ _ from hfits), ← ih, content_append, content_single]
      rfl
    · rw [if_neg hfits, if_neg (show ¬ (_ ∧ _ ∧ _) from hfits), ← ih, emit_document, content_single]
      rfl

/-- **The result chunks are the groups' chunks.** -/
theorem merge_docs_document (chunks : List (Document σ φ)) :
    merge_docs_to_target_size sizes measure chunks =
      (mergedGroups sizes measure chunks).map ChunkGroup.document := by
  unfold merge_docs_to_target_size mergedGroups
  by_cases hmin : sizes.CHUNK_MIN_SIZE_TARGET ≤ 0
  · rw [if_pos hmin, if_pos hmin, List.map_map]
    have hsame : (ChunkGroup.document ∘ ChunkGroup.single : Document σ φ → Document σ φ) = id := by
      funext chunk
      rw [Function.comp_apply, ChunkGroup.document, content_single]
      rfl
    rw [hsame, List.map_id]
  · rw [if_neg hmin, if_neg hmin]
    cases chunks with
    | nil => rfl
    | cons chunk chunks =>
      have h := mergeLoop_document sizes measure chunks [] (.single chunk)
      rw [content_single] at h
      exact h

/-! ## The merges that are taken -/

variable (sizes measure)

/-- The merge that `_emit` takes, if it takes one, is of groups in the relation `R`. -/
def EmitMeets (R : ChunkGroup σ φ → ChunkGroup σ φ → Prop) (result : List (ChunkGroup σ φ))
    (g : ChunkGroup σ φ) : Prop :=
  ∀ prev ∈ result.getLast?, FitsBackward sizes measure prev g → R prev g

/-- All merges that the loop takes from here on are of groups in the relation `R`. -/
def LoopMeets (R : ChunkGroup σ φ → ChunkGroup σ φ → Prop) (result : List (ChunkGroup σ φ))
    (current : ChunkGroup σ φ) : List (Document σ φ) → Prop
  | [] => EmitMeets sizes measure R result current
  | next_chunk :: chunks =>
    if FitsForward sizes measure current next_chunk then
      R current (.single next_chunk) ∧
        LoopMeets R result (current.append (.single next_chunk)) chunks
    else EmitMeets sizes measure R result current ∧
      LoopMeets R (emitGroup sizes measure result current) (.single next_chunk) chunks

/-- All merges of these chunks are of groups in the relation `R`. -/
def MergesMeet (R : ChunkGroup σ φ → ChunkGroup σ φ → Prop) (chunks : List (Document σ φ)) : Prop :=
  0 < sizes.CHUNK_MIN_SIZE_TARGET → ∀ chunk rest, chunks = chunk :: rest →
    LoopMeets sizes measure R [] (.single chunk) rest

/-- What the code checks of two groups before it merges them. -/
def Fits (g h : ChunkGroup σ φ) : Prop :=
  can_merge_chunks g.first h.first ∧ measure (pasted g.content h.content) ≤ sizes.CHUNK_SIZE

variable {sizes measure}

section

variable {R : ChunkGroup σ φ → ChunkGroup σ φ → Prop} {I : ChunkGroup σ φ → Prop}
  {result : List (ChunkGroup σ φ)} {current g : ChunkGroup σ φ} {chunks : List (Document σ φ)}

theorem fits_of_forward {next_chunk : Document σ φ}
    (h : FitsForward sizes measure g next_chunk) : Fits sizes measure g (.single next_chunk) := by
  obtain ⟨hcan, -, hlarge⟩ := h
  exact ⟨hcan, by rwa [content_single]⟩

/-- A property that holds of groups and is kept by the merge holds of all that is emitted. -/
theorem emitGroup_induction
    (happend : ∀ g h, Fits sizes measure g h → R g h → I g → I h → I (g.append h))
    (hmeet : EmitMeets sizes measure R result g) (hresult : ∀ h ∈ result, I h) (hg : I g) :
    ∀ h ∈ emitGroup sizes measure result g, I h := by
  have hpush : ∀ h ∈ result ++ [g], I h := by
    intro h hh
    rcases List.mem_append.mp hh with hh | hh
    · exact hresult h hh
    · rw [List.mem_singleton.mp hh]
      exact hg
  intro h hh
  rw [emitGroup] at hh
  cases hlast : result.getLast? with
  | none =>
    rw [hlast] at hh
    exact hpush h hh
  | some prev =>
    simp only [hlast] at hh
    split_ifs at hh with hfits
    · rcases List.mem_append.mp hh with hh | hh
      · exact hresult h (List.mem_of_mem_dropLast hh)
      · rw [List.mem_singleton.mp hh]
        have hprev : I prev := hresult prev (List.mem_of_getLast? hlast)
        exact happend prev g ⟨hfits.2.1, hfits.2.2⟩ (hmeet prev hlast hfits) hprev hg
    · exact hpush h hh

/-- **The rule for the loop**: a property that holds of single chunks and is kept by every merge
that is taken holds of all groups. -/
theorem groupLoop_induction (hsingle : ∀ chunk, I (.single chunk))
    (happend : ∀ g h, Fits sizes measure g h → R g h → I g → I h → I (g.append h))
    (hmeet : LoopMeets sizes measure R result current chunks)
    (hresult : ∀ h ∈ result, I h) (hcurrent : I current) :
    ∀ h ∈ groupLoop sizes measure result current chunks, I h := by
  induction chunks generalizing result current with
  | nil => exact emitGroup_induction happend hmeet hresult hcurrent
  | cons next_chunk chunks ih =>
    rw [LoopMeets] at hmeet
    rw [groupLoop]
    by_cases hfits : FitsForward sizes measure current next_chunk
    · rw [if_pos hfits] at hmeet ⊢
      exact ih hmeet.2 hresult
        (happend _ _ (fits_of_forward hfits) hmeet.1 hcurrent (hsingle next_chunk))
    · rw [if_neg hfits] at hmeet ⊢
      exact ih hmeet.2 (emitGroup_induction happend hmeet.1 hresult hcurrent) (hsingle next_chunk)

/-- The rule for all chunks. -/
theorem mergedGroups_induction (hsingle : ∀ chunk, I (.single chunk))
    (happend : ∀ g h, Fits sizes measure g h → R g h → I g → I h → I (g.append h))
    (hmeet : MergesMeet sizes measure R chunks) :
    ∀ g ∈ mergedGroups sizes measure chunks, I g := by
  unfold mergedGroups
  split_ifs with hmin
  · intro g hg
    obtain ⟨chunk, -, rfl⟩ := List.mem_map.mp hg
    exact hsingle chunk
  · cases chunks with
    | nil => exact fun g hg => nomatch hg
    | cons chunk rest =>
      exact groupLoop_induction hsingle happend (hmeet (Int.not_le.mp hmin) chunk rest rfl)
        (fun h hh => nomatch hh) (hsingle chunk)

/-- Every merge is of groups in a relation that always holds. -/
theorem loopMeets_of_forall (hR : ∀ g h, R g h) :
    LoopMeets sizes measure R result current chunks := by
  induction chunks generalizing result current with
  | nil => exact fun prev _ _ => hR prev current
  | cons next_chunk chunks ih =>
    rw [LoopMeets]
    split_ifs
    · exact ⟨hR _ _, ih⟩
    · exact ⟨fun prev _ _ => hR prev current, ih⟩

theorem mergesMeet_of_forall (hR : ∀ g h, R g h) : MergesMeet sizes measure R chunks :=
  fun _ _ _ _ => loopMeets_of_forall hR

/-! ## Groups only grow -/

variable (sizes measure) in
/-- What `_emit` puts last. -/
theorem exists_mem_emitGroup {h : ChunkGroup σ φ} (hh : h ∈ result ∨ h = g) :
    ∃ h' ∈ emitGroup sizes measure result g, h.parts ⊆ h'.parts := by
  have hpush : ∃ h' ∈ result ++ [g], h.parts ⊆ h'.parts := by
    rcases hh with hh | rfl
    · exact ⟨h, List.mem_append_left _ hh, List.Subset.refl _⟩
    · exact ⟨h, List.mem_append_right _ List.mem_cons_self, List.Subset.refl _⟩
  rw [emitGroup]
  cases hlast : result.getLast? with
  | none => exact hpush
  | some prev =>
    dsimp only
    split_ifs
    · have hmem : prev.append g ∈ result.dropLast ++ [prev.append g] :=
        List.mem_append_right _ List.mem_cons_self
      rcases hh with hh | rfl
      · rw [← List.dropLast_append_getLast? prev hlast] at hh
        rcases List.mem_append.mp hh with hh | hh
        · exact ⟨h, List.mem_append_left _ hh, List.Subset.refl _⟩
        · rw [List.mem_singleton.mp hh]
          exact ⟨_, hmem, List.subset_append_left _ _⟩
      · exact ⟨_, hmem, List.subset_append_right prev.parts h.parts⟩
    · exact hpush

variable (sizes measure) in
/-- Every group of the loop's state is part of a group of the result. -/
theorem exists_mem_groupLoop (chunks : List (Document σ φ)) {h : ChunkGroup σ φ}
    (hh : h ∈ result ∨ h = current) :
    ∃ h' ∈ groupLoop sizes measure result current chunks, h.parts ⊆ h'.parts := by
  induction chunks generalizing result current h with
  | nil => exact exists_mem_emitGroup sizes measure hh
  | cons next_chunk chunks ih =>
    rw [groupLoop]
    split_ifs
    · rcases hh with hh | rfl
      · exact ih (.inl hh)
      · obtain ⟨h', hh', hsub⟩ := @ih result _ _ (.inr rfl)
        exact ⟨h', hh', List.Subset.trans (List.subset_append_left _ _) hsub⟩
    · obtain ⟨h₁, hh₁, hsub₁⟩ := exists_mem_emitGroup sizes measure hh
      obtain ⟨h', hh', hsub⟩ := ih (.inl hh₁)
      exact ⟨h', hh', List.Subset.trans hsub₁ hsub⟩

end

/-! ## What the merges keep -/

/-- The file ids of two chunks agree where both have one. -/
def FileIdsAgree (a b : Document σ φ) : Prop :=
  ∀ i ∈ a.metadata.file_id, ∀ j ∈ b.metadata.file_id, i = j

/-- The file ids on two sides of a merge agree, whichever chunks they are on. -/
def SidesAgree (g h : ChunkGroup σ φ) : Prop := ∀ a ∈ g.parts, ∀ b ∈ h.parts, FileIdsAgree a b

omit [DecidableEq σ] [DecidableEq φ] in
theorem FileIdsAgree.symm {a b : Document σ φ} (h : FileIdsAgree a b) : FileIdsAgree b a :=
  fun i hi j hj => (h j hj i hi).symm

/-- Chunks that can be merged have one source. -/
theorem source_of_can_merge {a b : Document σ φ} (h : can_merge_chunks a b = true) :
    a.metadata.source = b.metadata.source := by
  by_contra hne
  rw [can_merge_chunks, if_pos hne] at h
  exact Bool.false_ne_true h

section

variable {chunks : List (Document σ φ)} {g : ChunkGroup σ φ}

/-- **No chunk is lost, repeated or moved.** -/
theorem flatMap_emitGroup (result : List (ChunkGroup σ φ)) (g : ChunkGroup σ φ) :
    (emitGroup sizes measure result g).flatMap ChunkGroup.parts =
      result.flatMap ChunkGroup.parts ++ g.parts := by
  have hpush : (result ++ [g]).flatMap ChunkGroup.parts =
      result.flatMap ChunkGroup.parts ++ g.parts := by simp
  rw [emitGroup]
  cases hlast : result.getLast? with
  | none => exact hpush
  | some prev =>
    dsimp only
    split_ifs
    · conv_rhs => rw [← List.dropLast_append_getLast? prev hlast]
      simp
    · exact hpush

theorem flatMap_groupLoop (chunks : List (Document σ φ)) (result : List (ChunkGroup σ φ))
    (current : ChunkGroup σ φ) :
    (groupLoop sizes measure result current chunks).flatMap ChunkGroup.parts =
      result.flatMap ChunkGroup.parts ++ current.parts ++ chunks := by
  induction chunks generalizing result current with
  | nil => rw [groupLoop, flatMap_emitGroup, List.append_nil]
  | cons next_chunk chunks ih =>
    rw [groupLoop]
    split_ifs
    · rw [ih]
      simp
    · rw [ih, flatMap_emitGroup]
      simp

theorem flatMap_mergedGroups (chunks : List (Document σ φ)) :
    (mergedGroups sizes measure chunks).flatMap ChunkGroup.parts = chunks := by
  unfold mergedGroups
  split_ifs
  · rw [List.flatMap_map]
    exact List.flatMap_singleton' chunks
  · cases chunks with
    | nil => rfl
    | cons chunk chunks => rw [flatMap_groupLoop]; rfl

/-- The text of the result chunks is that of the chunks. -/
theorem intercalate_mergedGroups (chunks : List (Document σ φ)) :
    chunkGap.intercalate ((mergedGroups sizes measure chunks).map ChunkGroup.content) =
      chunkGap.intercalate (chunks.map Document.page_content) := by
  have hcontents : (mergedGroups sizes measure chunks).map ChunkGroup.content =
      ((mergedGroups sizes measure chunks).map fun g => g.parts.map Document.page_content).map
        chunkGap.intercalate := by
    rw [List.map_map]
    rfl
  have hparts : ((mergedGroups sizes measure chunks).map fun g =>
      g.parts.map Document.page_content).flatten = chunks.map Document.page_content := by
    rw [← List.flatMap_def, ← List.map_flatMap, flatMap_mergedGroups]
  rw [hcontents, Python.intercalate_flatten, hparts]
  intro ls hls
  obtain ⟨g, -, rfl⟩ := List.mem_map.mp hls
  simp [ChunkGroup.parts]

/-- A result chunk above the maximum is a single chunk. -/
theorem single_of_long (hg : g ∈ mergedGroups sizes measure chunks)
    (hlong : sizes.CHUNK_SIZE < measure g.content) : g.others = [] := by
  refine mergedGroups_induction (I := fun g => sizes.CHUNK_SIZE < measure g.content → g.others = [])
    (R := fun _ _ => True) (fun _ _ => rfl) ?_ (mergesMeet_of_forall fun _ _ => trivial) g hg hlong
  intro g h hfits _ _ _ hlarge
  rw [content_append] at hlarge
  exact absurd hfits.2 (Int.not_le.mpr hlarge)

/-- The chunks of a group have the source of the first. -/
theorem source_of_mem (hg : g ∈ mergedGroups sizes measure chunks) {a : Document σ φ}
    (ha : a ∈ g.parts) : a.metadata.source = g.first.metadata.source := by
  refine mergedGroups_induction
    (I := fun g => ∀ a ∈ g.parts, a.metadata.source = g.first.metadata.source)
    (R := fun _ _ => True) ?_ ?_ (mergesMeet_of_forall fun _ _ => trivial) g hg a ha
  · intro chunk a ha
    exact congrArg (fun d : Document σ φ => d.metadata.source) (List.mem_singleton.mp ha)
  · intro g h hfits _ hg hh a ha
    rw [ChunkGroup.parts_append] at ha
    rcases List.mem_append.mp ha with ha | ha
    · exact hg a ha
    · exact (hh a ha).trans (source_of_can_merge hfits.1).symm

/-- Merges of sides that agree give groups of one file. -/
theorem fileIdsAgree_of_mergesMeet (hmeet : MergesMeet sizes measure SidesAgree chunks)
    (hg : g ∈ mergedGroups sizes measure chunks) {a b : Document σ φ} (ha : a ∈ g.parts)
    (hb : b ∈ g.parts) : FileIdsAgree a b := by
  refine mergedGroups_induction (I := fun g => ∀ a ∈ g.parts, ∀ b ∈ g.parts, FileIdsAgree a b)
    ?_ ?_ hmeet g hg a ha b hb
  · intro chunk a ha b hb i hi j hj
    rw [List.mem_singleton.mp ha] at hi
    rw [List.mem_singleton.mp hb] at hj
    exact Option.some.inj (hi.symm.trans hj)
  · intro g h _ hsides hg hh a ha b hb
    rw [ChunkGroup.parts_append] at ha hb
    rcases List.mem_append.mp ha with ha | ha
    · rcases List.mem_append.mp hb with hb | hb
      · exact hg a ha b hb
      · exact hsides a ha b hb
    · rcases List.mem_append.mp hb with hb | hb
      · exact (hsides b hb a ha).symm
      · exact hh a ha b hb

end

/-! ## What merging is for -/

variable (sizes measure)

/-- **Merging conserves the text** and stays within sources, files and, for merged chunks, the
maximum. -/
structure ConservesChunks (chunks : List (Document σ φ)) : Prop where
  parts : (mergedGroups sizes measure chunks).flatMap ChunkGroup.parts = chunks
  text : chunkGap.intercalate
      ((merge_docs_to_target_size sizes measure chunks).map Document.page_content) =
    chunkGap.intercalate (chunks.map Document.page_content)
  long : ∀ g ∈ mergedGroups sizes measure chunks,
    sizes.CHUNK_SIZE < measure g.document.page_content → g.others = []
  source : ∀ g ∈ mergedGroups sizes measure chunks, ∀ a ∈ g.parts, ∀ b ∈ g.parts,
    a.metadata.source = b.metadata.source
  file : ∀ g ∈ mergedGroups sizes measure chunks, ∀ a ∈ g.parts, ∀ b ∈ g.parts, FileIdsAgree a b

variable {sizes measure}

section

variable {chunks : List (Document σ φ)} {result : List (ChunkGroup σ φ)}
  {current : ChunkGroup σ φ}

omit [DecidableEq σ] [DecidableEq φ] in
/-- The two sides of a merge agree if the merged group is part of a group of one file. -/
theorem sidesAgree_of_subset {g h g' : ChunkGroup σ φ} (hsub : (g.append h).parts ⊆ g'.parts)
    (hfile : ∀ a ∈ g'.parts, ∀ b ∈ g'.parts, FileIdsAgree a b) : SidesAgree g h := by
  intro a ha b hb
  rw [ChunkGroup.parts_append] at hsub
  exact hfile a (hsub (List.mem_append_left _ ha)) b (hsub (List.mem_append_right _ hb))

theorem mem_emitGroup_of_fits {prev : ChunkGroup σ φ} (hprev : prev ∈ result.getLast?)
    (hfits : FitsBackward sizes measure prev current) :
    prev.append current ∈ emitGroup sizes measure result current := by
  have hlast : result.getLast? = some prev := hprev
  rw [emitGroup]
  simp only [hlast, if_pos hfits]
  exact List.mem_append_right _ List.mem_cons_self

/-- The loop only takes merges of sides that agree, if its groups are each of one file. -/
theorem loopMeets_of_file
    (h : ∀ g ∈ groupLoop sizes measure result current chunks, ∀ a ∈ g.parts, ∀ b ∈ g.parts,
      FileIdsAgree a b) :
    LoopMeets sizes measure SidesAgree result current chunks := by
  induction chunks generalizing result current with
  | nil =>
    intro prev hprev hfits
    exact sidesAgree_of_subset (List.Subset.refl _) (h _ (mem_emitGroup_of_fits hprev hfits))
  | cons next_chunk chunks ih =>
    rw [groupLoop] at h
    rw [LoopMeets]
    by_cases hfits : FitsForward sizes measure current next_chunk
    · rw [if_pos hfits] at h ⊢
      obtain ⟨g', hg', hsub⟩ :=
        @exists_mem_groupLoop _ _ _ _ sizes measure result _ chunks _ (.inr rfl)
      exact ⟨sidesAgree_of_subset hsub (h g' hg'), ih h⟩
    · rw [if_neg hfits] at h ⊢
      refine ⟨fun prev hprev hback => ?_, ih h⟩
      obtain ⟨g', hg', hsub⟩ := @exists_mem_groupLoop _ _ _ _ sizes measure _
        (.single next_chunk) chunks _ (.inl (mem_emitGroup_of_fits hprev hback))
      exact sidesAgree_of_subset hsub (h g' hg')

theorem mergesMeet_of_file
    (h : ∀ g ∈ mergedGroups sizes measure chunks, ∀ a ∈ g.parts, ∀ b ∈ g.parts,
      FileIdsAgree a b) :
    MergesMeet sizes measure SidesAgree chunks := by
  rintro hmin chunk rest rfl
  unfold mergedGroups at h
  rw [if_neg (Int.not_le.mpr hmin)] at h
  exact loopMeets_of_file h

end

end

/-- **When merging conserves the chunks**: exactly if no merge that is taken brings together two
chunks with different file ids. For every list of chunks, all sizes and every length function, the
result chunks are those of the groups; the text, the sizes and the sources are always kept. -/
theorem merge_conserves_iff (sizes : ChunkSizes) (measure : List Char → ℤ)
    (chunks : List (Document σ φ)) :
    merge_docs_to_target_size sizes measure chunks =
        (mergedGroups sizes measure chunks).map ChunkGroup.document ∧
      (ConservesChunks sizes measure chunks ↔ MergesMeet sizes measure SidesAgree chunks) := by
  refine ⟨merge_docs_document chunks, fun h => mergesMeet_of_file h.file, fun hmeet => ?_⟩
  refine ⟨flatMap_mergedGroups chunks, ?_, fun g hg => single_of_long hg, ?_, ?_⟩
  · rw [merge_docs_document, List.map_map]
    exact intercalate_mergedGroups chunks
  · intro g hg a ha b hb
    exact (source_of_mem hg ha).trans (source_of_mem hg hb).symm
  · intro g hg a ha b hb
    exact fileIdsAgree_of_mergesMeet hmeet hg ha hb

/-- A chunk of a page without a file id, and one of each of two files, all from one source. -/
def mixedChunks : List (Document String String) :=
  [⟨['a'], ⟨"s", none⟩⟩, ⟨['b'], ⟨"s", some "f"⟩⟩, ⟨['c'], ⟨"s", some "g"⟩⟩]

/-- The first absorbs both others: one result chunk of two files. -/
theorem mixed_files :
    merge_docs_to_target_size ⟨100, 1000⟩ (fun text => text.length) mixedChunks =
        [⟨"a\n\nb\n\nc".toList, ⟨"s", none⟩⟩] ∧
      mergedGroups ⟨100, 1000⟩ (fun text => text.length) mixedChunks =
        [⟨mixedChunks.head (by decide), mixedChunks.tail⟩] ∧
      ¬ ConservesChunks ⟨100, 1000⟩ (fun text => text.length) mixedChunks := by
  refine ⟨by decide, by decide, fun h => ?_⟩
  have hagree := h.file ⟨mixedChunks.head (by decide), mixedChunks.tail⟩ (by decide)
    ⟨['b'], ⟨"s", some "f"⟩⟩ (by decide) ⟨['c'], ⟨"s", some "g"⟩⟩ (by decide) "f" rfl "g" rfl
  exact absurd hagree (by decide)

end OpenLaunch.Retrieval.Chunking
