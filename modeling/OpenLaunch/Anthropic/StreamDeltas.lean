import OpenLaunch.Anthropic.Stream

/-! # The tool-call deltas of an OpenAI stream

What the chunks of an OpenAI stream say about its tool calls, read without the generator's state:
the deltas in order, the tool call each delta belongs to, and the argument fragments a tool call is
sent. `Progress` follows one tool call through its own deltas; it tells which of the fragments reach
the call's block. -/

namespace OpenLaunch.Anthropic

open Python StreamState

/-! ## Reading the deltas -/

/-- A tool-call delta: its index, its id if it has one, its name and its argument fragment. -/
structure ToolDelta where
  index : Json.Key
  id : Option Json.Key
  name : Json
  arguments : String
  deriving DecidableEq

/-- The id of a delta, which is hashable if there is one. -/
def deltaId (id : Json) : Except PyErr (Option Json.Key) :=
  if id.truthy then some <$> id.key else .ok none

/-- The argument fragment of a delta, which is a string if there is one. -/
def deltaArguments (fragment : Json) : Except PyErr String :=
  if fragment.truthy then
    match fragment with
    | .str a => .ok a
    | _ => .error .typeError
  else .ok ""

/-- The delta with the given fields, if they have the types of an OpenAI stream. -/
def fieldsDelta (index id name fragment : Json) : Except PyErr ToolDelta := do
  let id ← deltaId id
  let index ← index.key
  let arguments ← deltaArguments fragment
  return ⟨index, id, name, arguments⟩

/-- The delta of an entry of `tool_calls`. -/
def toolDelta (tool_call : Json) : Except PyErr ToolDelta := do
  let index ← tool_call.getD "index" (.int 0)
  let id ← tool_call.getD "id" (.str "")
  let function ← tool_call.get "function"
  let name ← (function.or (.dict [])).getD "name" (.str "")
  let fragment ← (function.or (.dict [])).getD "arguments" (.str "")
  fieldsDelta index id name fragment

/-- The entries of `tool_calls`, which may be missing. -/
def toolEntries (tool_calls : Json) : Except PyErr (List Json) :=
  if tool_calls.truthy then tool_calls.iter else .ok []

/-- The usage of a chunk is an object, if there is one. -/
def checkUsage (data : Json) : Except PyErr Unit := do
  let usage ← data.get "usage"
  if usage.truthy then do
    let _ ← usage.get "prompt_tokens"
    return ()
  else return ()

/-- The finish reason of a chunk can be looked up. -/
def checkFinish (finish_reason : Json) : Except PyErr Unit := do
  let _ ← finish_reason.key
  return ()

/-- The tool-call deltas of one object. -/
def dataDeltas (data : Json) : Except PyErr (List ToolDelta) := do
  let choices ← data.getD "choices" (.list [])
  if choices.truthy then do
    let choice ← choices.first
    let delta ← choice.getD "delta" (.dict [])
    let finish_reason ← choice.get "finish_reason"
    let message ← choice.get "message"
    checkUsage data
    let _ ← delta.get "content"
    let tool_calls ← toolCalls delta (message.or (.dict []))
    let entries ← toolEntries tool_calls
    let deltas ← entries.mapM toolDelta
    checkFinish finish_reason
    return deltas
  else do
    checkUsage data
    return []

/-- The tool-call deltas of one chunk. -/
def chunkDeltas (chunk : Chunk) : Except PyErr (List ToolDelta) := do
  let data ← chunkData chunk
  return (← data.mapM dataDeltas).flatten

/-- **The tool-call deltas of a stream**, in order; an error if the chunks are not those of an
OpenAI stream. -/
def streamDeltas (chunks : List Chunk) : Except PyErr (List ToolDelta) := do
  return (← chunks.mapM chunkDeltas).flatten

/-! ## Which tool call a delta belongs to -/

/-- The deltas so far with the tool call each belongs to, and how many calls had no id. -/
structure Routing where
  past : List (ToolKey × ToolDelta)
  generated : ℕ

namespace Routing

/-- The tool call of the latest delta at an index. -/
def latest (r : Routing) (index : Json.Key) : Option ToolKey :=
  (r.past.reverse.find? fun p => p.2.index = index).map Prod.fst

/-- **The tool call of the next delta**: the one its id names; without an id, the one of the latest
delta at its index; a new one if there is none. -/
def owner (r : Routing) (d : ToolDelta) : ToolKey :=
  match d.id with
  | some k => .given k
  | none => (r.latest d.index).getD (.generated r.generated)

/-- The next delta. -/
def add (r : Routing) (d : ToolDelta) : Routing where
  past := r.past ++ [(r.owner d, d)]
  generated := if d.id = none ∧ r.latest d.index = none then r.generated + 1 else r.generated

/-- The deltas of one tool call. -/
def own (r : Routing) (key : ToolKey) : List ToolDelta :=
  (r.past.filter fun p => p.1 = key).map Prod.snd

/-- Before the first delta. -/
def start : Routing := ⟨[], 0⟩

variable (r : Routing) (d : ToolDelta)

theorem latest_add (index : Json.Key) :
    (r.add d).latest index = if index = d.index then some (r.owner d) else r.latest index := by
  unfold latest add
  rw [List.reverse_append]
  by_cases h : d.index = index
  · simp [h]
  · simp [h, Ne.symm h]

theorem own_add (key : ToolKey) :
    (r.add d).own key = r.own key ++ if r.owner d = key then [d] else [] := by
  unfold own add
  rw [List.filter_append, List.map_append]
  by_cases h : r.owner d = key <;> simp [h]

theorem own_add_owner : (r.add d).own (r.owner d) = r.own (r.owner d) ++ [d] := by
  rw [own_add, if_pos rfl]

theorem own_add_of_ne {key : ToolKey} (h : key ≠ r.owner d) : (r.add d).own key = r.own key := by
  rw [own_add, if_neg (Ne.symm h), List.append_nil]

/-- The latest tool call at an index has a delta. -/
theorem own_ne_nil_of_latest {index : Json.Key} {key : ToolKey} (h : r.latest index = some key) :
    r.own key ≠ [] := by
  obtain ⟨p, hp, rfl⟩ := Option.map_eq_some_iff.mp h
  have hmem : p ∈ r.past := List.mem_reverse.mp (List.mem_of_find?_eq_some hp)
  have hown : p.2 ∈ r.own p.1 := by
    refine List.mem_map.mpr ⟨p, List.mem_filter.mpr ⟨hmem, ?_⟩, rfl⟩
    exact decide_eq_true rfl
  exact List.ne_nil_of_mem hown

end Routing

/-- **The deltas that belong to a tool call**, in order. -/
def ownDeltas (key : ToolKey) (deltas : List ToolDelta) : List ToolDelta :=
  (deltas.foldl Routing.add .start).own key

/-- All argument fragments of a list of deltas, joined. -/
def joinArguments (deltas : List ToolDelta) : String :=
  String.join (deltas.map ToolDelta.arguments)

@[simp] theorem joinArguments_nil : joinArguments [] = "" := rfl

@[simp] theorem joinArguments_cons (d : ToolDelta) (ds : List ToolDelta) :
    joinArguments (d :: ds) = d.arguments ++ joinArguments ds := by
  simp [joinArguments]

@[simp] theorem joinArguments_append (ds es : List ToolDelta) :
    joinArguments (ds ++ es) = joinArguments ds ++ joinArguments es := by
  simp [joinArguments]

/-- The name of the tool call is in one of the deltas. -/
def Named (deltas : List ToolDelta) : Prop := ∃ d ∈ deltas, d.name.truthy = true

/-! ## Which fragments arrive -/

/-- The name is known and the arguments are complete after one of the deltas that have a fragment.
-/
def CompletedIn (deltas : List ToolDelta) : Prop :=
  ∃ pre d post, deltas = pre ++ d :: post ∧ d.arguments ≠ "" ∧ Named (pre ++ [d]) ∧
    isComplete (joinArguments (pre ++ [d])) = true

/-- **No fragment comes before the name of the tool call, and none after arguments that, with the
name known, already were complete.** -/
def FragmentsInTime (deltas : List ToolDelta) : Prop :=
  ∀ pre d post, deltas = pre ++ d :: post → d.arguments ≠ "" →
    Named (pre ++ [d]) ∧ ¬ CompletedIn pre

/-- Where a tool call is after some of its deltas. -/
structure Progress where
  /-- The name has arrived. -/
  named : Bool
  /-- The arguments received. -/
  arguments : String
  /-- The block is closed. -/
  stopped : Bool
  /-- The arguments put into the block. -/
  sent : String

namespace Progress

/-- Before the first delta. -/
def start : Progress := ⟨false, "", false, ""⟩

/-- A delta that brings the name leaves the rest as it is. -/
def addName (p : Progress) (name : Json) : Progress := { p with named := p.named || name.truthy }

/-- A fragment is received, and put into the block if that is open. -/
def addFragment (p : Progress) (fragment : String) : Progress :=
  if p.named && !p.stopped then
    { p with
      arguments := p.arguments ++ fragment
      stopped := isComplete (p.arguments ++ fragment)
      sent := p.sent ++ fragment }
  else { p with arguments := p.arguments ++ fragment }

/-- One delta of the tool call. -/
def step (p : Progress) (d : ToolDelta) : Progress :=
  if d.arguments = "" then p.addName d.name else (p.addName d.name).addFragment d.arguments

/-- All deltas of the tool call. -/
def run (deltas : List ToolDelta) : Progress := deltas.foldl step start

theorem run_concat (ds : List ToolDelta) (d : ToolDelta) : run (ds ++ [d]) = (run ds).step d := by
  rw [run, List.foldl_append]
  rfl

variable (p : Progress) (d : ToolDelta) (ds : List ToolDelta)

theorem step_named : (p.step d).named = (p.named || d.name.truthy) := by
  unfold step addFragment
  split
  · rfl
  · split <;> rfl

theorem step_arguments : (p.step d).arguments = p.arguments ++ d.arguments := by
  unfold step addFragment
  split
  · rename_i h
    rw [h, String.append_empty]
    rfl
  · split <;> rfl

theorem run_named : (run ds).named = true ↔ Named ds := by
  induction ds using List.reverseRecOn with
  | nil => simp [run, start, Named]
  | append_singleton ds d ih =>
    rw [run_concat, step_named, Bool.or_eq_true, ih]
    simp only [Named, List.mem_append, List.mem_singleton, or_and_right, exists_or,
      exists_eq_left]

theorem run_arguments : (run ds).arguments = joinArguments ds := by
  induction ds using List.reverseRecOn with
  | nil => rfl
  | append_singleton ds d ih =>
    rw [run_concat, step_arguments, ih, joinArguments_append, joinArguments_cons, joinArguments_nil,
      String.append_empty]

/-- Before the name nothing is sent and the block is not closed. -/
theorem run_unnamed (h : (run ds).named = false) :
    (run ds).stopped = false ∧ (run ds).sent = "" := by
  induction ds using List.reverseRecOn with
  | nil => exact ⟨rfl, rfl⟩
  | append_singleton ds d ih =>
    rw [run_concat, step_named, Bool.or_eq_false_iff] at h
    obtain ⟨hstopped, hsent⟩ := ih h.1
    rw [run_concat]
    unfold step addFragment addName
    split
    · exact ⟨hstopped, hsent⟩
    · rw [if_neg (by simp [h.1, h.2])]
      exact ⟨hstopped, hsent⟩

end Progress

/-- The arguments are completed by the last delta or before it. -/
theorem completedIn_concat {ds : List ToolDelta} {d : ToolDelta} :
    CompletedIn (ds ++ [d]) ↔ CompletedIn ds ∨
      (d.arguments ≠ "" ∧ Named (ds ++ [d]) ∧ isComplete (joinArguments (ds ++ [d])) = true) := by
  constructor
  · rintro ⟨pre, e, post, heq, he⟩
    rcases List.eq_nil_or_concat post with rfl | ⟨post, e', rfl⟩
    · obtain ⟨rfl, hd⟩ := List.append_inj' heq rfl
      obtain rfl := List.singleton_inj.mp hd
      exact .inr he
    · have hsplit : ds ++ [d] = (pre ++ e :: post) ++ [e'] := by
        rw [heq]
        simp
      obtain ⟨rfl, -⟩ := List.append_inj' hsplit rfl
      exact .inl ⟨pre, e, post, rfl, he⟩
  · rintro (⟨pre, e, post, rfl, he⟩ | he)
    · exact ⟨pre, e, post ++ [d], by simp, he⟩
    · exact ⟨ds, d, [], rfl, he⟩

/-- The block of a tool call is closed once the arguments are complete. -/
theorem Progress.run_stopped (ds : List ToolDelta) : (run ds).stopped = true ↔ CompletedIn ds := by
  induction ds using List.reverseRecOn with
  | nil =>
    constructor
    · intro h
      cases h
    · rintro ⟨pre, d, post, heq, -⟩
      simp at heq
  | append_singleton ds d ih =>
    have hnamed := run_named (ds ++ [d])
    have harguments := run_arguments (ds ++ [d])
    rw [run_concat, step_named] at hnamed
    rw [run_concat, step_arguments] at harguments
    rw [completedIn_concat, run_concat, ← ih, ← hnamed, ← harguments]
    unfold step addFragment addName
    by_cases hempty : d.arguments = ""
    · simp [hempty]
    · rw [if_neg hempty]
      dsimp only
      split
      · rename_i hopen
        obtain ⟨hname, hstopped⟩ : ((run ds).named || d.name.truthy) = true ∧
            (run ds).stopped = false := by simpa using hopen
        simp [hempty, hname, hstopped]
      · rename_i hclosed
        have himp : ((run ds).named || d.name.truthy) = true → (run ds).stopped = true := by
          intro hname
          by_contra hstopped
          exact hclosed (by simp [hname, hstopped])
        exact ⟨.inl, fun h => h.elim id fun h => himp h.2.1⟩

/-- Fragments are in time when the last one is and the earlier ones are. -/
theorem fragmentsInTime_concat {ds : List ToolDelta} {d : ToolDelta} :
    FragmentsInTime (ds ++ [d]) ↔ FragmentsInTime ds ∧
      (d.arguments ≠ "" → Named (ds ++ [d]) ∧ ¬ CompletedIn ds) := by
  constructor
  · intro h
    refine ⟨fun pre e post heq => ?_, h ds d [] rfl⟩
    exact h pre e (post ++ [d]) (by rw [heq]; simp)
  · rintro ⟨h, hlast⟩ pre e post heq
    rcases List.eq_nil_or_concat post with rfl | ⟨post, e', rfl⟩
    · obtain ⟨rfl, hd⟩ := List.append_inj' heq rfl
      obtain rfl := List.singleton_inj.mp hd
      exact hlast
    · have hsplit : ds ++ [d] = (pre ++ e :: post) ++ [e'] := by
        rw [heq]
        simp
      obtain ⟨rfl, -⟩ := List.append_inj' hsplit rfl
      exact h pre e post rfl

/-- A tool call is sent at most what it received. -/
theorem Progress.run_sent_length_le (ds : List ToolDelta) :
    (run ds).sent.length ≤ (joinArguments ds).length := by
  induction ds using List.reverseRecOn with
  | nil => exact le_rfl
  | append_singleton ds d ih =>
    rw [run_concat, joinArguments_append, joinArguments_cons, joinArguments_nil,
      String.append_empty, String.length_append]
    unfold step addFragment addName
    split
    · exact ih.trans (Nat.le_add_right _ _)
    · split
      · rw [String.length_append]
        exact Nat.add_le_add_right ih _
      · exact ih.trans (Nat.le_add_right _ _)

/-- **A tool call is sent exactly the arguments it received, if and only if its fragments are in
time.** -/
theorem Progress.run_sent_eq_iff (ds : List ToolDelta) :
    (run ds).sent = joinArguments ds ↔ FragmentsInTime ds := by
  induction ds using List.reverseRecOn with
  | nil => exact ⟨fun _ pre d post heq => by simp at heq, fun _ => rfl⟩
  | append_singleton ds d ih =>
    have hnamed := run_named (ds ++ [d])
    rw [run_concat, step_named] at hnamed
    rw [fragmentsInTime_concat, ← ih, ← hnamed, ← run_stopped, run_concat, joinArguments_append,
      joinArguments_cons, joinArguments_nil, String.append_empty]
    unfold step addFragment addName
    by_cases hempty : d.arguments = ""
    · simp [hempty]
    · rw [if_neg hempty]
      dsimp only
      split
      · rename_i hopen
        obtain ⟨hname, hstopped⟩ : ((run ds).named || d.name.truthy) = true ∧
            (run ds).stopped = false := by simpa using hopen
        simp [hname, hstopped]
      · rename_i hclosed
        -- the fragment is lost, so less is sent than received
        constructor
        · intro heq
          have hle := run_sent_length_le ds
          have hlength := congrArg String.length heq
          simp only [String.length_append] at hlength
          have hpos : d.arguments.length ≠ 0 := fun hzero =>
            hempty (String.length_eq_zero_iff.mp hzero)
          omega
        · rintro ⟨-, hintime⟩
          obtain ⟨hname, hstopped⟩ := hintime hempty
          exact absurd (by simp [hname, hstopped]) hclosed

end OpenLaunch.Anthropic
