import OpenLaunch.Chats.MessageList
import OpenLaunch.Python.Conversions
import OpenLaunch.Retrieval.Collections

/-! # The sources of a request

A request comes with items: texts, notes, chats, files, knowledge bases, web pages. Each item yields
documents, or the names of collections that are searched for the queries of the request. -/

namespace OpenLaunch.Retrieval

open Python Access
open Chats (History get_message_list)

/-! ## Stored texts -/

/-- What a text is stored for. -/
inductive Object
  | note (id : String)
  | chat (id : String)
  | file (id : String)
  | knowledge (id : String)
  /-- A collection of the vector store. -/
  | collection (name : String)
  deriving DecidableEq

/-- The texts of a row of `note`. -/
structure NoteText where
  title : String
  data : Json

/-- The texts of a row of `chat`; `history` is that of the column `chat`. -/
structure ChatText where
  title : String
  history : History

/-- The texts of a row of `file`. -/
structure FileText where
  filename : String
  data : Json

/-- What is stored: a knowledge base has a `meta`, and a collection has contents. -/
def Stored (γ : Type) : Object → Type
  | .note _ => NoteText
  | .chat _ => ChatText
  | .file _ => FileText
  | .knowledge _ => Json
  | .collection _ => γ

/-- The texts that are stored. -/
abbrev Texts (γ : Type) := ∀ o : Object, Stored γ o

/-- The rest of the deployment. -/
structure Backend (γ : Type) where
  store : VectorStore γ
  conversions : Conversions
  /-- The key that the database looks for, when it is given a value that is no string. -/
  driver : Json → Option String
  /-- `str.capitalize`. -/
  capitalize : String → String
  /-- `get_content_from_url`: the content and the documents. -/
  get_content_from_url : Json → Except PyErr (Json × Json)
  /-- `retrieve_external_knowledge`, for a knowledge base with some `meta`. -/
  retrieve_external_knowledge : String → Json → List Json → Except PyErr QueryResult

/-- The key that the database looks for; `None` is no key. -/
def Backend.bind {γ : Type} (b : Backend γ) : Json → Option String
  | .str s => some s
  | .null => none
  | v => b.driver v

/-! ## Documents -/

/-- A result with one document. -/
def single (document metadata : Json) : QueryResult := ⟨[[document]], [[metadata]], none⟩

/-- `item.get('file', {}).get('data', {})`. -/
def fileData (item : Json) : Except PyErr Json := do
  let file ← item.getD "file" (.dict [])
  file.getD "data" (.dict [])

/-- The file data of an item. -/
def suppliedFile (item : Json) : Except PyErr QueryResult := do
  let data ← fileData item
  let content ← data.get "content"
  let file ← item.getD "file" (.dict [])
  let file_meta ← file.getD "meta" (.dict [])
  return single content file_meta

/-- The content of an item. -/
def suppliedContent (item : Json) : Except PyErr QueryResult := do
  let content ← item.get "content"
  let id ← item.get "id"
  let name ← item.get "name"
  return single content (.dict [("file_id", id), ("name", name)])

/-- The entries of `**v`, which has to be a dictionary. -/
def unpacked : Json → Except PyErr (List (String × Json))
  | .dict kvs => .ok kvs
  | _ => .error .typeError

/-- The file data of an item, with the metadata there. -/
def suppliedFull (item content : Json) : Except PyErr QueryResult := do
  let id ← item.get "id"
  let name ← item.get "name"
  let file ← item.get "file"
  let data ← file.getD "data" (.dict [])
  let metadata ← data.getD "metadata" (.dict [])
  let entries ← unpacked metadata
  return single content
    (.dict (entries.foldl (fun kvs e => Assoc.set kvs e.1 e.2) [("file_id", id), ("name", name)]))

/-- The documents of an item, which a web search put there. -/
def suppliedDocs (item : Json) : Except PyErr QueryResult := do
  let docs ← item.get "docs"
  let docs ← docs.iter
  let documents ← docs.mapM fun doc => doc.get "content"
  let metadatas ← docs.mapM fun doc => doc.get "metadata"
  return ⟨[documents], [metadatas], none⟩

/-- The document of a note. -/
def noteResult (id : String) (note : NoteText) : Except PyErr QueryResult := do
  let content ← note.data.getD "content" (.dict [])
  let md ← content.getD "md" (.str "")
  return single md (.dict [("file_id", .str id), ("name", .str note.title)])

/-- The document of a file; `item_id` is the id that the item has. -/
def fileResult (item_id : Json) (file : FileText) : Except PyErr QueryResult := do
  let content ← file.data.getD "content" (.str "")
  return single content (.dict [("file_id", item_id), ("name", .str file.filename),
    ("source", .str file.filename)])

/-- The documents of the files of a knowledge base. -/
def filesResult (files : List (String × FileText)) : Except PyErr QueryResult := do
  let documents ← files.mapM fun file => file.2.data.getD "content" (.str "")
  let metadatas := files.map fun file => Json.dict [("file_id", .str file.1),
    ("name", .str file.2.filename), ("source", .str file.2.filename)]
  return ⟨[documents], [metadatas], none⟩

section Items

variable {γ : Type} (b : Backend γ)

/-- The document of a web page. -/
def urlResult (item : Json) : Except PyErr (Option QueryResult) := do
  let url ← item.get "url"
  let (content, docs) ← b.get_content_from_url url
  return if docs.truthy then some (single content (.dict [("url", url), ("name", url)])) else none

/-- `f'#### {m.get("role", "user").capitalize()}\n{m.get("content")}\n'`. -/
def messageText (m : Chats.Message) : Except PyErr String := do
  match (Assoc.get? m "role").getD (.str "user") with
  | .str role =>
    return "#### " ++ b.capitalize role ++ "\n" ++ b.conversions.str (m.field "content") ++ "\n"
  | _ => .error .attributeError

/-- The document of a chat, if it has messages; `none` when `fuel` iterations of the loop over them
are not enough. -/
def chatResult (fuel : ℕ) (id : String) (chat : ChatText) :
    Option (Except PyErr (Option QueryResult)) :=
  if chat.history.messages.entries ≠ [] ∧ chat.history.currentId.truthy then
    (get_message_list fuel chat.history.messages chat.history.currentId).map fun message_list => do
      let message_list ← message_list
      let texts ← message_list.mapM (messageText b)
      return some (single (.str ("\n".intercalate texts))
        (.dict [("file_id", .str id), ("name", .str chat.title)]))
  else some (.ok none)

/-! ## Items -/

/-- What an item comes to: a result, or names of collections to search. -/
structure Found where
  query_result : Option QueryResult
  collection_names : List Json
  /-- What is added to `extracted_collections`. -/
  extracted : List String

/-- Neither a result nor names. -/
def Found.nothing : Found := ⟨none, [], []⟩

/-- A result. -/
def Found.result (q : QueryResult) : Found := ⟨some q, [], []⟩

/-- Names of collections. -/
def Found.names (collection_names : List Json) : Found := ⟨none, collection_names, []⟩

variable (settings : Settings) (s : Tables) (user : User) (texts : Texts γ) (queries : List Json)

/-- An item of type `text`. -/
def textItem (item : Json) : Except PyErr Found := do
  let context ← item.get "context"
  let file ← item.get "file"
  if context = .str "full" ∧ file.truthy then Found.result <$> suppliedFile item
  else
    let collection_name ← item.get "collection_name"
    if collection_name.truthy then return .names [collection_name]
    else if file.truthy then Found.result <$> suppliedFile item
    else Found.result <$> suppliedContent item

/-- An item of type `note`. -/
def noteItem (item : Json) : Except PyErr Found := do
  let id ← item.get "id"
  match (b.bind id).bind s.get_note_by_id with
  | none => return .nothing
  | some note =>
    if user.role = "admin" || note.user_id = user.id ||
        s.has_access user.id "note" note.id "read" none then
      Found.result <$> noteResult note.id (texts (.note note.id))
    else return .nothing

/-- An item of type `chat`. -/
def chatItem (fuel : ℕ) (item : Json) : Option (Except PyErr Found) :=
  match item.get "id" with
  | .error e => some (.error e)
  | .ok id =>
    match (b.bind id).bind s.get_chat_by_id with
    | none => some (.ok .nothing)
    | some chat =>
      if user.role = "admin" || chat.user_id = user.id then
        (chatResult b fuel chat.id (texts (.chat chat.id))).map fun r => do
          let query_result ← r
          return ⟨query_result, [], []⟩
      else some (.ok .nothing)

/-- An item of type `url`. -/
def urlItem (item : Json) : Except PyErr Found := do
  let query_result ← urlResult b item
  return ⟨query_result, [], []⟩

/-- Whether the user may read a file that an item names. -/
def readsFile (file_object : File) : Except PyErr Bool :=
  if user.role = "admin" || file_object.user_id = user.id then .ok true
  else has_access_to_file s file_object.id "read" user

/-- `f'{file_id}'` for an item with `legacy`, and else `f'file-{file_id}'`. -/
def chunksName (item file_id : Json) : Except PyErr Json := do
  let legacy ← item.get "legacy"
  let name := b.conversions.str file_id
  return .str (if legacy.truthy then name else "file-" ++ name)

/-- An item of type `file`. -/
def fileItem (item : Json) : Except PyErr Found := do
  let context ← item.get "context"
  let id ← item.get "id"
  if context = .str "full" ∨ settings.bypass_embedding_and_retrieval then
    let data ← fileData item
    let content ← data.getD "content" (.str "")
    if content.truthy then Found.result <$> suppliedFull item content
    else if id.truthy then
      match (b.bind id).bind s.get_file_by_id with
      | none => return .nothing
      | some file_object =>
        if ← readsFile s user file_object then
          Found.result <$> fileResult id (texts (.file file_object.id))
        else return .nothing
    else return .nothing
  else if id.truthy then
    if settings.BYPASS_RETRIEVAL_ACCESS_CONTROL then
      let name ← chunksName b item id
      return .names [name]
    else
      match (b.bind id).bind s.get_file_by_id with
      | none => return .nothing
      | some file_object =>
        if ← readsFile s user file_object then
          let name ← chunksName b item id
          return .names [name]
        else return .nothing
  else return .nothing

/-- Whether the user may read a knowledge base that an item names. -/
def readsKnowledge (knowledge_base : Owned) : Bool :=
  user.role = "admin" || knowledge_base.user_id = user.id ||
    s.has_access user.id "knowledge" knowledge_base.id "read" none

/-- `[n for n in names if n in owned_names]`, which raises for an unhashable name. -/
def validNames (owned_names : List String) (names : List Json) : Except PyErr (List Json) := do
  let _ ← names.mapM Json.key
  return names.filter fun n => n ∈ owned_names.map Json.str

/-- The names of a legacy knowledge base, of which the client says what collections it has. -/
def legacyNames (knowledge_base : Owned) (item : Json) : Except PyErr (List Json) := do
  if settings.BYPASS_RETRIEVAL_ACCESS_CONTROL then
    let names ← item.getD "collection_names" (.list [])
    if names.truthy then names.iter else return []
  else
    let owned_names :=
      (s.get_files_by_id knowledge_base.id).map (fun f => "file-" ++ f.id) ++ [knowledge_base.id]
    let names ← item.get "collection_names"
    let names ← (names.or (.list [])).iter
    let valid_names ← validNames owned_names names
    return if valid_names ≠ [] then valid_names else [.str knowledge_base.id]

/-- `item[key]`. -/
def itemAt (item : Json) (key : String) : Except PyErr Json :=
  match item with
  | .dict kvs => match Assoc.get? kvs key with
    | some v => .ok v
    | none => .error .keyError
  | _ => .error .typeError

/-- An item of type `collection`. -/
def collectionItem (item : Json) : Except PyErr Found := do
  let id ← item.get "id"
  match (b.bind id).bind s.get_knowledge_by_id with
  | none => return .nothing
  | some knowledge_base =>
    if !readsKnowledge s user knowledge_base then return .nothing
    else
      let knowledge_meta : Json := texts (.knowledge knowledge_base.id)
      let source ← (knowledge_meta.or (.dict [])).get "source"
      let context ← item.get "context"
      let legacy ← item.get "legacy"
      if source = .str "external" then
        let query_result ← b.retrieve_external_knowledge knowledge_base.id knowledge_meta queries
        return ⟨some query_result, [], [knowledge_base.id]⟩
      else if context = .str "full" ∨ settings.bypass_embedding_and_retrieval then
        -- the access is checked a second time
        if readsKnowledge s user knowledge_base then
          Found.result <$> filesResult ((s.get_files_by_id knowledge_base.id).map fun file =>
            (file.id, texts (.file file.id)))
        else return .nothing
      else if legacy.truthy then Found.names <$> legacyNames settings s knowledge_base item
      else
        let id ← itemAt item "id"
        return .names [id]

/-- An item of another type. -/
def otherItem (item : Json) : Except PyErr Found := do
  let type ← item.get "type"
  let docs ← item.get "docs"
  let collection_name ← item.get "collection_name"
  let collection_names ← item.get "collection_names"
  if docs.truthy then Found.result <$> suppliedDocs item
  else if type = .str "web_search" ∧ collection_name.truthy then return .names [collection_name]
  else if collection_name.truthy then
    -- a name that the client gives without a type is not trusted
    if settings.BYPASS_RETRIEVAL_ACCESS_CONTROL then return .names [collection_name]
    else return .nothing
  else if collection_names.truthy then
    if settings.BYPASS_RETRIEVAL_ACCESS_CONTROL then Found.names <$> collection_names.iter
    else return .nothing
  else return .nothing

/-- The branch for the type of an item. -/
def foundIn (fuel : ℕ) (item : Json) : Option (Except PyErr Found) :=
  match item.get "type" with
  | .error e => some (.error e)
  | .ok type =>
    if type = .str "text" then some (textItem item)
    else if type = .str "note" then some (noteItem b s user texts item)
    else if type = .str "chat" then chatItem b s user texts fuel item
    else if type = .str "url" then some (urlItem b item)
    else if type = .str "file" then some (fileItem b settings s user texts item)
    else if type = .str "collection" then
      some (collectionItem b settings s user texts queries item)
    else some (otherItem settings item)

/-! ## The loop -/

/-- The contents of the collections. -/
def contents (name : String) : γ := texts (.collection name)

/-- The state of the loop over the items. -/
structure Progress where
  extracted_collections : List String
  /-- `query_results`, each with the item that it is for. -/
  query_results : List (QueryResult × Json)

/-- The item without its `data`. -/
def withoutData : Json → Json
  | .dict kvs => .dict (kvs.filter fun e => e.1 ≠ "data")
  | item => item

/-- The names of collections that are left to search: those of the set that are not extracted yet,
as far as the user may read them. -/
def namesToSearch (extracted_collections : List String) (collection_names : List Json) :
    Except PyErr (List String) := do
  let _ ← collection_names.mapM Json.key
  let collection_names :=
    collection_names.dedup.filter fun n => n ∉ extracted_collections.map Json.str
  if collection_names = [] then return []
  else filter_accessible_collections settings s collection_names user "read"

/-- What the loop does with an item, once it is known what the item comes to. -/
def retrieve (full_context : Bool) (st : Progress) (item : Json) (found : Found) :
    Except PyErr Progress := do
  let extracted := st.extracted_collections ++ found.extracted
  match found.query_result with
  | some query_result =>
    return ⟨extracted, st.query_results ++ [(query_result, withoutData item)]⟩
  | none =>
    let names ← namesToSearch settings s user extracted found.collection_names
    if names = [] then return ⟨extracted, st.query_results⟩
    else
      let query_result :=
        searchCollections b.store settings full_context (contents texts) names queries
      return ⟨extracted ++ names,
        st.query_results ++ query_result.toList.map fun q => (q, withoutData item)⟩

/-- An iteration of the loop. -/
def nextItem (fuel : ℕ) (full_context : Bool) (st : Progress) (item : Json) :
    ExceptT PyErr Option Progress :=
  ExceptT.mk ((foundIn b settings s user texts queries fuel item).map fun found =>
    found.bind (retrieve b settings s user texts queries full_context st item))

/-- An element of `sources`. -/
structure Source where
  source : Json
  document : List Json
  metadata : List Json
  distances : Option (List Json)

/-- The source of a result; one without documents is logged and left out. -/
def sourceOf (query_result : QueryResult) (file : Json) : Option Source :=
  match query_result.documents, query_result.metadatas with
  | document :: _, metadata :: _ =>
    some ⟨file, document, metadata, query_result.distances.bind List.head?⟩
  | _, _ => none

/-- `get_sources_from_items`; it returns nothing when `fuel` iterations are not enough for the
messages of a chat. -/
def get_sources_from_items (fuel : ℕ) (full_context : Bool) (items : List Json) :
    Option (Except PyErr (List Source)) :=
  ((items.foldlM (nextItem b settings s user texts queries fuel full_context) ⟨[], []⟩).run).map
    fun r => r.map fun st => st.query_results.filterMap fun e => sourceOf e.1 e.2

end Items

end OpenLaunch.Retrieval
