import OpenLaunch.Python.Json
import OpenLaunch.Transition

/-! # Versions of a prompt

A prompt keeps a history: an update that changes its content adds an entry with a snapshot, and
names as the parent the latest entry that there was. Restoring a version copies its snapshot back
into the prompt. The snapshot is made from the form of the update, not from the row.

The grants of a prompt are part of a snapshot, but never restored; of them only whether a form gives
any matters here. -/

namespace OpenLaunch.Prompts

open Python Transition

/-! ## Rows -/

/-- The tags of a prompt. -/
abbrev Tags := List (Option String)

/-- The row of a prompt. -/
structure Prompt where
  command : String
  name : String
  content : String
  data : Dict String Json
  meta_ : Dict String Json
  tags : Tags
  version_id : Option String
  deriving DecidableEq

/-- A snapshot; one without tags lacks the key. -/
structure Snapshot where
  name : String
  content : String
  command : String
  data : Dict String Json
  meta_ : Dict String Json
  tags : Option Tags
  deriving DecidableEq

/-- An entry of the history. `created_at` is in seconds. -/
structure HistoryEntry where
  id : String
  parent_id : Option String
  snapshot : Snapshot
  created_at : ℕ
  deriving DecidableEq

/-- The form of an update. -/
structure PromptForm where
  command : String
  name : String
  content : String
  data : Option (Dict String Json)
  meta_ : Option (Dict String Json)
  tags : Option Tags
  /-- `access_grants is not None`. -/
  access_grants : Bool
  is_production : Bool
  deriving DecidableEq

/-- `d or old`. -/
def orElse (d : Option (Dict String Json)) (old : Dict String Json) : Dict String Json :=
  match d with
  | none => old
  | some new => if new.entries = [] then old else new

/-! ## Restoring -/

/-- What a version is to bring back. -/
structure Saved where
  name : String
  content : String
  data : Dict String Json
  meta_ : Dict String Json
  tags : Tags
  deriving DecidableEq

/-- These fields of a prompt. -/
def Prompt.saved (prompt : Prompt) : Saved :=
  ⟨prompt.name, prompt.content, prompt.data, prompt.meta_, prompt.tags⟩

/-- The prompt that `update_prompt_version` makes of an entry of its history. -/
def Prompt.restore (prompt : Prompt) (entry : HistoryEntry) : Prompt where
  command := prompt.command
  name := entry.snapshot.name
  content := entry.snapshot.content
  data := entry.snapshot.data
  meta_ := entry.snapshot.meta_
  tags := entry.snapshot.tags.getD prompt.tags
  version_id := some entry.id

/-! ## Updating -/

/-- `content_changed` of `update_prompt_by_id`. -/
def contentChangedById (prompt : Prompt) (form_data : PromptForm) : Bool :=
  prompt.name ≠ form_data.name || prompt.command ≠ form_data.command ||
    prompt.content ≠ form_data.content || form_data.access_grants ||
    form_data.tags.any fun tags => prompt.tags ≠ tags

/-- The row after `update_prompt_by_id`. -/
def updatedById (prompt : Prompt) (form_data : PromptForm) : Prompt where
  command := form_data.command
  name := form_data.name
  content := form_data.content
  data := orElse form_data.data prompt.data
  meta_ := orElse form_data.meta_ prompt.meta_
  tags := form_data.tags.getD prompt.tags
  version_id := prompt.version_id

/-- The snapshot of `update_prompt_by_id`. -/
def snapshotById (prompt : Prompt) (form_data : PromptForm) : Snapshot where
  name := form_data.name
  content := form_data.content
  command := (updatedById prompt form_data).command
  data := orElse form_data.data .empty
  meta_ := orElse form_data.meta_ .empty
  tags := some (updatedById prompt form_data).tags

/-- `content_changed` of `update_prompt_by_command`. -/
def contentChangedByCommand (prompt : Prompt) (form_data : PromptForm) : Bool :=
  prompt.name ≠ form_data.name || prompt.content ≠ form_data.content || form_data.access_grants

/-- The row after `update_prompt_by_command`, which leaves the tags. -/
def updatedByCommand (prompt : Prompt) (form_data : PromptForm) : Prompt where
  command := prompt.command
  name := form_data.name
  content := form_data.content
  data := orElse form_data.data prompt.data
  meta_ := orElse form_data.meta_ prompt.meta_
  tags := prompt.tags
  version_id := prompt.version_id

/-- The snapshot of `update_prompt_by_command`, which has no tags. -/
def snapshotByCommand (command : String) (form_data : PromptForm) : Snapshot where
  name := form_data.name
  content := form_data.content
  command := command
  data := orElse form_data.data .empty
  meta_ := orElse form_data.meta_ .empty
  tags := none

/-- The row of `insert_new_prompt`, but for its version. -/
def insertedPrompt (form_data : PromptForm) : Prompt where
  command := form_data.command
  name := form_data.name
  content := form_data.content
  data := orElse form_data.data .empty
  meta_ := orElse form_data.meta_ .empty
  tags := form_data.tags.getD []
  version_id := none

/-- The snapshot of `insert_new_prompt`. -/
def initialSnapshot (form_data : PromptForm) : Snapshot where
  name := form_data.name
  content := form_data.content
  command := form_data.command
  data := orElse form_data.data .empty
  meta_ := orElse form_data.meta_ .empty
  tags := some (form_data.tags.getD [])

/-! ## Runs -/

/-- `get_latest_history_entry`: an entry of the latest second. Which of several the database finds
is open. -/
structure LatestQuery where
  get_latest_history_entry : List HistoryEntry → Option HistoryEntry
  eq_none : ∀ entries, get_latest_history_entry entries = none → entries = []
  mem : ∀ entries entry, get_latest_history_entry entries = some entry →
    entry ∈ entries ∧ ∀ other ∈ entries, other.created_at ≤ entry.created_at

/-- An entry of the history, in the order of creation, and what the prompt had right after the
operation that created it. -/
structure Version where
  entry : HistoryEntry
  saved : Saved
  deriving DecidableEq

/-- A prompt and its versions. -/
structure PromptState where
  prompt : Option Prompt
  versions : List Version
  deriving DecidableEq

/-- The entries of the history. -/
def PromptState.entries (s : PromptState) : List HistoryEntry := s.versions.map Version.entry

/-- The ids of the entries. -/
def PromptState.ids (s : PromptState) : List String := s.entries.map HistoryEntry.id

/-- The calls on one prompt, each with the UUID and the time of the entry that it may create. -/
inductive PromptEvent
  | insert_new_prompt (form_data : PromptForm) (id : String) (now : ℕ)
  | update_prompt_by_id (form_data : PromptForm) (id : String) (now : ℕ)
  | update_prompt_by_command (command : String) (form_data : PromptForm) (id : String) (now : ℕ)
  | update_prompt_metadata (name command : String) (tags : Option Tags)
  | update_prompt_version (version_id : String)
  | delete_history_entry (history_id : String)
  deriving DecidableEq

/-- The prompt with a new version, which becomes the active one if `is_production`. -/
def PromptState.commit (s : PromptState) (prompt : Prompt) (entry : HistoryEntry)
    (is_production : Bool) : PromptState where
  prompt := some (if is_production then { prompt with version_id := some entry.id } else prompt)
  versions := s.versions ++ [⟨entry, prompt.saved⟩]

/-- The history without an entry, whose children become those of its parent. -/
def reparent (entry : HistoryEntry) (versions : List Version) : List Version :=
  (versions.map fun v =>
    if v.entry.parent_id = some entry.id then
      { v with entry := { v.entry with parent_id := entry.parent_id } }
    else v).filter fun v => v.entry.id ≠ entry.id

variable (query : LatestQuery)

/-- The `parent_id` of a new entry. -/
def PromptState.parentId (s : PromptState) : Option String :=
  (query.get_latest_history_entry s.entries).map HistoryEntry.id

/-- `update_prompt_by_id`. -/
def PromptState.update_prompt_by_id (s : PromptState) (prompt : Prompt) (form_data : PromptForm)
    (id : String) (now : ℕ) : PromptState :=
  if contentChangedById prompt form_data then
    s.commit (updatedById prompt form_data)
      ⟨id, s.parentId query, snapshotById prompt form_data, now⟩ form_data.is_production
  else { s with prompt := some (updatedById prompt form_data) }

/-- `update_prompt_by_command`. -/
def PromptState.update_prompt_by_command (s : PromptState) (prompt : Prompt) (command : String)
    (form_data : PromptForm) (id : String) (now : ℕ) : PromptState :=
  if contentChangedByCommand prompt form_data then
    s.commit (updatedByCommand prompt form_data)
      ⟨id, s.parentId query, snapshotByCommand command form_data, now⟩ form_data.is_production
  else { s with prompt := some (updatedByCommand prompt form_data) }

/-- `update_prompt_metadata`. -/
def updatedMetadata (prompt : Prompt) (name command : String) (tags : Option Tags) : Prompt :=
  { prompt with name := name, command := command, tags := tags.getD prompt.tags }

/-- One call. A new entry has a new UUID. An id that is no entry of the prompt restores nothing, and
the router refuses to delete the active version. -/
def promptStep (s : PromptState) : PromptEvent → Option PromptState
  | .insert_new_prompt form_data id now =>
    match s.prompt with
    | none =>
      some (s.commit (insertedPrompt form_data) ⟨id, none, initialSnapshot form_data, now⟩ true)
    | some _ => none
  | .update_prompt_by_id form_data id now =>
    match s.prompt with
    | some prompt =>
      if id ∉ s.ids then some (s.update_prompt_by_id query prompt form_data id now) else none
    | none => some s
  | .update_prompt_by_command command form_data id now =>
    match s.prompt with
    | some prompt =>
      if command = "" ∨ prompt.command ≠ command then some s
      else if id ∉ s.ids then
        some (s.update_prompt_by_command query prompt command form_data id now)
      else none
    | none => some s
  | .update_prompt_metadata name command tags =>
    some { s with prompt := s.prompt.map (updatedMetadata · name command tags) }
  | .update_prompt_version version_id =>
    match s.prompt, s.entries.find? fun entry => entry.id = version_id with
    | some prompt, some entry => some { s with prompt := some (prompt.restore entry) }
    | _, _ => some s
  | .delete_history_entry history_id =>
    match s.prompt, s.entries.find? fun entry => entry.id = history_id with
    | some prompt, some entry =>
      if prompt.version_id = some history_id then some s
      else some { s with versions := reparent entry s.versions }
    | _, _ => some s

/-- Before the prompt. -/
def PromptState.start : PromptState := ⟨none, []⟩

end OpenLaunch.Prompts
