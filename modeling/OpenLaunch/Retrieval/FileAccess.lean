import OpenLaunch.Channels.Lookups
import OpenLaunch.Knowledge.Tables

/-! # Access to stored files

Files, notes, chats and knowledge bases, as far as the access to them goes. A user that does not own
a file may still read it: through a knowledge base, a channel, a shared chat or a model. -/

namespace OpenLaunch.Retrieval

open Python Access Channels
open Knowledge (KnowledgeFile)

/-! ## The tables -/

/-- A row of `file`, without its texts. -/
structure File where
  id : String
  user_id : String
  «meta» : Option (Dict String Json)

/-- A row of `note`, `knowledge` or another table of owned objects, without its texts. -/
structure Owned where
  id : String
  user_id : String
  deriving DecidableEq

/-- A row of `chat`, without its texts. -/
structure Chat where
  id : String
  user_id : String
  share_id : Option String
  deriving DecidableEq

/-- A row of `chat_file`. -/
structure ChatFile where
  chat_id : String
  file_id : String
  deriving DecidableEq

/-- A row of `model`; `knowledge` is that of its `meta`. -/
structure Model where
  id : String
  user_id : String
  base_model_id : Option String
  knowledge : Json

/-- The tables, without the texts in them. -/
structure Tables where
  files : List File
  notes : List Owned
  chats : List Chat
  chat_files : List ChatFile
  knowledge : List Owned
  knowledge_files : List KnowledgeFile
  models : List Model
  /-- The tables of channels, and those of users, groups and grants. -/
  channels : Store

namespace Tables

variable (s : Tables)

/-- The tables of users, groups and grants. -/
def access : Database := s.channels.access

/-! ## Queries -/

/-- `Files.get_file_by_id`. -/
def get_file_by_id (id : String) : Option File := s.files.find? fun f => f.id = id

/-- `Notes.get_note_by_id`. -/
def get_note_by_id (id : String) : Option Owned := s.notes.find? fun n => n.id = id

/-- `Chats.get_chat_by_id`. -/
def get_chat_by_id (id : String) : Option Chat := s.chats.find? fun c => c.id = id

/-- `Knowledges.get_knowledge_by_id`. -/
def get_knowledge_by_id (id : String) : Option Owned := s.knowledge.find? fun k => k.id = id

/-- `Knowledges.get_knowledges_by_file_id`: the join of knowledge bases and links. -/
def get_knowledges_by_file_id (file_id : String) : List Owned :=
  s.knowledge.flatMap fun k =>
    (s.knowledge_files.filter fun l => l.knowledge_id = k.id ∧ l.file_id = file_id).map fun _ => k

/-- `Knowledges.get_files_by_id`: the join of files and links. -/
def get_files_by_id (knowledge_id : String) : List File :=
  s.files.flatMap fun f =>
    (s.knowledge_files.filter fun l => l.file_id = f.id ∧ l.knowledge_id = knowledge_id).map
      fun _ => f

/-- `Chats.get_shared_chat_ids_by_file_id`. -/
def get_shared_chat_ids_by_file_id (file_id : String) : List String :=
  s.chats.flatMap fun c =>
    (s.chat_files.filter fun l => l.chat_id = c.id ∧ l.file_id = file_id ∧ c.share_id.isSome).map
      fun _ => c.id

/-- `AccessGrants.has_access`. -/
def has_access (user_id resource_type resource_id permission : String)
    (user_group_ids : Option (List String)) : Bool :=
  AccessGrantsTable.has_access s.access user_id resource_type resource_id permission user_group_ids

/-- `{group.id for group in await Groups.get_groups_by_member_id(user_id)}`. -/
def user_group_ids (user_id : String) : List String :=
  (get_groups_by_member_id s.access user_id).map Group.id

/-- `Knowledges.get_knowledge_bases_by_user_id`, in some order. -/
def get_knowledge_bases_by_user_id (user_id permission : String) : List Owned :=
  s.knowledge.filter fun k => k.user_id = user_id ||
    s.has_access user_id "knowledge" k.id permission (some (s.user_group_ids user_id))

/-- `Knowledges.check_access_by_user_id`. -/
def check_access_by_user_id (id user_id permission : String) : Bool :=
  match s.get_knowledge_by_id id with
  | none => false
  | some knowledge => knowledge.user_id = user_id ||
    s.has_access user_id "knowledge" knowledge.id permission (some (s.user_group_ids user_id))

/-- `Models.get_models_by_user_id`. -/
def get_models_by_user_id (user_id permission : String) : List Model :=
  (s.models.filter fun m => m.base_model_id.isSome).filter fun m => m.user_id = user_id ||
    s.has_access user_id "model" m.id permission (some (s.user_group_ids user_id))

end Tables

/-! ## Files of others -/

/-- Only a reader, or the owner of the file, gets more than read access through an object. -/
def confers (access_type : String) (owner : String) (file : File) : Bool :=
  access_type = "read" ∨ owner = file.user_id

/-- The file is in a knowledge base that the user may use. -/
def knowledgeGives (s : Tables) (file : File) (access_type : String) (user : User) : Bool :=
  (s.get_knowledges_by_file_id file.id).any fun k =>
    (k.user_id = user.id || s.has_access user.id "knowledge" k.id access_type
      (some (s.user_group_ids user.id))) && confers access_type k.user_id file

/-- `file.meta.get('collection_name') if file.meta else None`. -/
def File.collection_name (file : File) : Json :=
  (file.meta.bind fun m => m.get? "collection_name").getD .null

/-- The collection of the file is a knowledge base that the user may use. -/
def collectionGives (s : Tables) (file : File) (access_type : String) (user : User) : Bool :=
  file.collection_name.truthy &&
    (s.get_knowledge_bases_by_user_id user.id access_type).any fun k =>
      .str k.id = file.collection_name && confers access_type k.user_id file

/-- The file is in a channel of the user. -/
def channelGives (s : Tables) (file : File) (access_type : String) (user : User) : Bool :=
  access_type = "read" && s.channels.get_channels_by_file_id_and_user_id file.id user.id ≠ []

/-- The file is in a chat that is shared with the user. -/
def sharedChatGives (s : Tables) (file : File) (access_type : String) (user : User) : Bool :=
  let shared_chat_ids := s.get_shared_chat_ids_by_file_id file.id
  access_type = "read" && shared_chat_ids ≠ [] &&
    AccessGrantsTable.get_accessible_resource_ids s.access user.id "shared_chat" shared_chat_ids
      "read" (some (s.user_group_ids user.id)) ≠ []

/-- `isinstance(item, dict) and item.get('type') == 'file' and item.get('id') == file.id`. -/
def attaches (file : File) : Json → Bool
  | .dict item => Assoc.get? item "type" = some (.str "file") ∧
      Assoc.get? item "id" = some (.str file.id)
  | _ => false

/-- The loop over the models: whether one of them attaches the file. -/
def modelsGive (file : File) (access_type : String) : List Model → Except PyErr Bool
  | [] => .ok false
  | model :: models => do
    let knowledge_items ← (model.knowledge.or (.list [])).iter
    if knowledge_items.any fun item => attaches file item && confers access_type model.user_id file
    then .ok true
    else modelsGive file access_type models

/-- `has_access_to_file`. -/
def has_access_to_file (s : Tables) (file_id access_type : String) (user : User) :
    Except PyErr Bool :=
  match s.get_file_by_id file_id with
  | none => .ok false
  | some file =>
    if file.user_id = user.id then .ok true
    else if knowledgeGives s file access_type user then .ok true
    else if collectionGives s file access_type user then .ok true
    else if channelGives s file access_type user then .ok true
    else if sharedChatGives s file access_type user then .ok true
    else modelsGive file access_type (s.get_models_by_user_id user.id access_type)

/-! ## Files of a knowledge base -/

variable {s : Tables} {user : User} {id knowledge_id : String}

theorem get_file_by_id_id {file : File} (h : s.get_file_by_id id = some file) : file.id = id := by
  rw [Tables.get_file_by_id] at h
  simpa using List.find?_some h

theorem mem_get_files_by_id {f : File} : f ∈ s.get_files_by_id knowledge_id ↔
    f ∈ s.files ∧ ∃ l ∈ s.knowledge_files, l.file_id = f.id ∧ l.knowledge_id = knowledge_id := by
  simp only [Tables.get_files_by_id, List.mem_flatMap, List.mem_map, List.mem_filter,
    decide_eq_true_eq]
  constructor
  · rintro ⟨f', hf', l, ⟨hl, h⟩, rfl⟩
    exact ⟨hf', l, hl, h⟩
  · rintro ⟨hf, l, hl, h⟩
    exact ⟨f, hf, l, ⟨hl, h⟩, rfl⟩

theorem mem_get_knowledges_by_file_id {k : Owned} {file_id : String} :
    k ∈ s.get_knowledges_by_file_id file_id ↔
      k ∈ s.knowledge ∧ ∃ l ∈ s.knowledge_files, l.knowledge_id = k.id ∧ l.file_id = file_id := by
  simp only [Tables.get_knowledges_by_file_id, List.mem_flatMap, List.mem_map, List.mem_filter,
    decide_eq_true_eq]
  constructor
  · rintro ⟨k', hk', l, ⟨hl, h⟩, rfl⟩
    exact ⟨hk', l, hl, h⟩
  · rintro ⟨hk, l, hl, h⟩
    exact ⟨k, hk, l, ⟨hl, h⟩, rfl⟩

/-- A group list that is passed is the one that would be looked up. -/
theorem has_access_group_ids {resource_type resource_id permission : String} :
    s.has_access user.id resource_type resource_id permission (some (s.user_group_ids user.id)) =
      s.has_access user.id resource_type resource_id permission none :=
  rfl

/-- **The files of a knowledge base** may be read by everyone who may read the knowledge base. -/
theorem has_access_to_file_of_knowledge {k : Owned} {f : File} (hk : k ∈ s.knowledge)
    (hgives : k.user_id = user.id ∨ s.has_access user.id "knowledge" k.id "read" none = true)
    (hf : f ∈ s.get_files_by_id k.id) : has_access_to_file s f.id "read" user = .ok true := by
  obtain ⟨hfile, l, hl, hid, hlink⟩ := mem_get_files_by_id.mp hf
  have hsome : (s.get_file_by_id f.id).isSome := by
    rw [Tables.get_file_by_id, List.find?_isSome]
    exact ⟨f, hfile, decide_eq_true rfl⟩
  obtain ⟨file, hget⟩ := Option.isSome_iff_exists.mp hsome
  have hsame : file.id = f.id := get_file_by_id_id hget
  have hknowledge : knowledgeGives s file "read" user = true := by
    rw [knowledgeGives, List.any_eq_true]
    refine ⟨k, mem_get_knowledges_by_file_id.mpr ⟨hk, l, hl, hlink, hid.trans hsame.symm⟩, ?_⟩
    rw [has_access_group_ids]
    simpa [confers] using hgives
  rw [has_access_to_file, hget]
  dsimp only
  rw [if_pos hknowledge, ite_self]

end OpenLaunch.Retrieval
