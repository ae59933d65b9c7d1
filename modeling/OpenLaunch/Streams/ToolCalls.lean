import OpenLaunch.Python.JsonRoundTrip
import OpenLaunch.Python.Text

/-! # Tool calls of Ollama streams

A tool call that an Ollama model returns is converted into a delta of a stream, with an index and
with its arguments as text; the stream loop puts the deltas of one index together into one tool
call; and a tool call whose arguments are the texts of several objects is split again. -/

namespace OpenLaunch.Streams

open Python

/-! ## The conversion -/

/-- The argument object of a call. -/
structure ArgumentObject where
  entries : List (String × Json)
  wellFormed : (Json.dict entries).WellFormed

theorem wellFormed_nil : (Json.dict []).WellFormed := .dict List.nodup_nil nofun

def ArgumentObject.json (a : ArgumentObject) : Json := .dict a.entries

/-- A tool call of Ollama. Its index, which may be null, is given in the call or in its function. -/
structure OllamaToolCall where
  index : Option (Option ℤ)
  functionIndex : Option (Option ℤ)
  name : Option String
  arguments : Option ArgumentObject

namespace OllamaToolCall

/-- `function.get('name', '')`. -/
def calledName (call : OllamaToolCall) : String := call.name.getD ""

/-- `function.get('arguments', {})`. -/
def calledArguments (call : OllamaToolCall) : ArgumentObject :=
  call.arguments.getD ⟨[], wellFormed_nil⟩

/-- `tool_call.get('index', function.get('index', 0))`. -/
def effectiveIndex (call : OllamaToolCall) : Option ℤ :=
  call.index.getD (call.functionIndex.getD (some 0))

end OllamaToolCall

/-- A tool call of a stream. -/
structure ToolCall where
  index : Option ℤ
  name : String
  arguments : List Char
  deriving DecidableEq

/-- `convert_ollama_tool_call_to_openai`. -/
def convert_ollama_tool_call_to_openai (tool_calls : List OllamaToolCall) : List ToolCall :=
  tool_calls.map fun call =>
    ⟨call.effectiveIndex, call.calledName, dumps .standard call.calledArguments.json⟩

/-! ## The stream loop -/

/-- A delta whose index is not null: it updates the first call with its index, or it is a new call.
-/
def mergeToolCall (delta : ToolCall) : List ToolCall → List ToolCall
  | [] => [delta]
  | call :: calls =>
    if call.index = delta.index then
      { call with
        name := if delta.name ≠ "" then delta.name else call.name
        arguments := call.arguments ++ delta.arguments } :: calls
    else call :: mergeToolCall delta calls

/-- One delta of the stream loop. -/
def accumulate (response_tool_calls : List ToolCall) (delta : ToolCall) : List ToolCall :=
  if delta.index = none then response_tool_calls else mergeToolCall delta response_tool_calls

/-- The tool calls of the stream, for the calls of each chunk. -/
def streamToolCalls (chunks : List (List OllamaToolCall)) : List ToolCall :=
  chunks.foldl (fun response chunk =>
    (convert_ollama_tool_call_to_openai chunk).foldl accumulate response) []

/-! ## The split -/

/-- The loop of `split_json_objects`, or `none` where the text is not a sequence of objects. The
first argument bounds their number. -/
def splitObjects : ℕ → List Char → Option (List (List Char))
  | 0, _ => none
  | n + 1, raw =>
    let raw := raw.dropWhile isSpace
    if raw = [] then some []
    else match scanValue (raw.length + 1) raw with
      | .ok (_, rest) =>
        (splitObjects n rest).map (strip (raw.take (raw.length - rest.length)) :: ·)
      | .error _ => none

/-- `split_json_objects`. -/
def split_json_objects (raw : List Char) : List (List Char) :=
  match splitObjects (raw.length + 1) raw with
  | some results => if results = [] then [raw] else results
  | none => [raw]

/-- `_split_tool_calls`. -/
def _split_tool_calls (tool_calls : List ToolCall) : List ToolCall :=
  tool_calls.flatMap fun tool_call =>
    let split_arguments := split_json_objects tool_call.arguments
    if split_arguments.length ≤ 1 then [tool_call]
    else split_arguments.map fun argument => { tool_call with arguments := argument }

/-! ## The property -/

/-- The name of a call, and its arguments as they are read. -/
def ToolCall.read (call : ToolCall) : String × Except PyErr Json :=
  (call.name, loads call.arguments)

/-- **The calls survive**: as many calls come out, with the same names and argument objects, in the
same order. -/
def Survive (chunks : List (List OllamaToolCall)) : Prop :=
  (_split_tool_calls (streamToolCalls chunks)).map ToolCall.read =
    chunks.flatten.map fun call => (call.calledName, .ok call.calledArguments.json)

/-- The index and the name of a call. -/
def OllamaToolCall.shape (call : OllamaToolCall) : Option ℤ × String :=
  (call.effectiveIndex, call.calledName)

/-- **Runs of calls**: the calls of one index follow one another and have one name. -/
def InRuns (shapes : List (Option ℤ × String)) : Prop :=
  ∃ runs : List ((ℤ × String) × ℕ), (runs.map fun run => run.1.1).Nodup ∧
    shapes = runs.flatMap fun run => List.replicate run.2 (some run.1.1, run.1.2)

/-! ## Groups -/

/-- The calls of one index. -/
structure Group where
  index : ℤ
  name : String
  arguments : List ArgumentObject

def argumentText (a : ArgumentObject) : List Char := dumps .standard a.json

/-- The tool call of the stream that the calls of a group become. -/
def Group.call (g : Group) : ToolCall :=
  ⟨some g.index, g.name, (g.arguments.map argumentText).flatten⟩

/-- A call joins the group of its index. -/
def joinGroup (index : ℤ) (name : String) (a : ArgumentObject) : List Group → List Group
  | [] => [⟨index, name, [a]⟩]
  | g :: gs =>
    if g.index = index then
      { g with
        name := if name ≠ "" then name else g.name
        arguments := g.arguments ++ [a] } :: gs
    else g :: joinGroup index name a gs

/-- The groups after a call. -/
def addCall (gs : List Group) (call : OllamaToolCall) : List Group :=
  match call.effectiveIndex with
  | some index => joinGroup index call.calledName call.calledArguments gs
  | none => gs

/-- The stream loop puts the groups together. -/
theorem accumulate_call (gs : List Group) (call : OllamaToolCall) :
    accumulate (gs.map Group.call)
        ⟨call.effectiveIndex, call.calledName, dumps .standard call.calledArguments.json⟩ =
      (addCall gs call).map Group.call := by
  unfold accumulate addCall
  cases call.effectiveIndex with
  | none => rfl
  | some index =>
    rw [if_neg (by simp)]
    dsimp only
    induction gs with
    | nil => simp [mergeToolCall, joinGroup, Group.call, argumentText]
    | cons g gs ih =>
      rw [List.map_cons, mergeToolCall, joinGroup]
      by_cases hindex : g.index = index
      · rw [if_pos (show g.call.index = some index by rw [← hindex]; rfl), if_pos hindex]
        simp [Group.call, argumentText]
      · rw [if_neg (show g.call.index ≠ some index from fun h => hindex (Option.some.inj h)),
          if_neg hindex, ih]
        rfl

/-- The groups of the calls of a stream. -/
def groups (calls : List OllamaToolCall) : List Group := calls.foldl addCall []

theorem streamToolCalls_eq (chunks : List (List OllamaToolCall)) :
    streamToolCalls chunks = (groups chunks.flatten).map Group.call := by
  have hfold (calls : List OllamaToolCall) (gs : List Group) :
      (convert_ollama_tool_call_to_openai calls).foldl accumulate (gs.map Group.call) =
        (calls.foldl addCall gs).map Group.call := by
    induction calls generalizing gs with
    | nil => rfl
    | cons call calls ih =>
      unfold convert_ollama_tool_call_to_openai at ih ⊢
      rw [List.map_cons, List.foldl_cons, accumulate_call, ih]
      rfl
  have hchunks (gs : List Group) :
      chunks.foldl (fun response chunk =>
          (convert_ollama_tool_call_to_openai chunk).foldl accumulate response)
        (gs.map Group.call) = (chunks.flatten.foldl addCall gs).map Group.call := by
    induction chunks generalizing gs with
    | nil => rfl
    | cons chunk chunks ih =>
      rw [List.foldl_cons, hfold, ih, List.flatten_cons, List.foldl_append]
  exact hchunks []

/-! ## Texts of objects -/

theorem dumpsMembers_concat (f : Format) (kvs : List (String × Json)) :
    ∃ cs, dumpsMembers f kvs = cs ++ ['}'] := by
  induction kvs with
  | nil => exact ⟨[], rfl⟩
  | cons e kvs ih =>
    obtain ⟨cs, hcs⟩ := ih
    rw [dumpsMembers, hcs]
    exact ⟨_, (List.append_assoc ..).symm⟩

/-- The text of an object is in braces. -/
theorem argumentText_braces (a : ArgumentObject) : ∃ cs, argumentText a = '{' :: (cs ++ ['}']) := by
  obtain ⟨entries, -⟩ := a
  unfold argumentText ArgumentObject.json
  cases entries with
  | nil => exact ⟨[], rfl⟩
  | cons e kvs =>
    obtain ⟨k, v⟩ := e
    obtain ⟨cs, hcs⟩ := dumpsMembers_concat .standard kvs
    dsimp only
    rw [dumps, hcs]
    exact ⟨_, congrArg (List.cons '{') (List.append_assoc ..).symm⟩

theorem strip_argumentText (a : ArgumentObject) : strip (argumentText a) = argumentText a := by
  obtain ⟨cs, hcs⟩ := argumentText_braces a
  unfold strip
  rw [hcs, List.dropWhile_cons_of_neg (by decide), ← List.cons_append,
    List.rdropWhile_concat_neg _ _ _ (by decide)]

/-- The text that follows an object in a sequence of objects ends it. -/
theorem delimited_texts (as : List ArgumentObject) : Delimited (as.map argumentText).flatten := by
  cases as with
  | nil => exact delimited_nil
  | cons a as =>
    obtain ⟨cs, hcs⟩ := argumentText_braces a
    rw [List.map_cons, List.flatten_cons, hcs]
    exact delimited_cons (by decide) _

/-- **A sequence of objects is split into its objects.** -/
theorem splitObjects_texts (as : List ArgumentObject) (n : ℕ) (hn : as.length < n) :
    splitObjects n (as.map argumentText).flatten = some (as.map argumentText) := by
  induction as generalizing n with
  | nil =>
    obtain ⟨n, rfl⟩ := Nat.exists_eq_succ_of_ne_zero (by omega : n ≠ 0)
    rfl
  | cons a as ih =>
    obtain ⟨n, rfl⟩ := Nat.exists_eq_succ_of_ne_zero (by omega : n ≠ 0)
    obtain ⟨cs, hcs⟩ := argumentText_braces a
    rw [List.map_cons, List.flatten_cons, splitObjects]
    have hdrop : (argumentText a ++ (as.map argumentText).flatten).dropWhile isSpace =
        argumentText a ++ (as.map argumentText).flatten := by
      rw [hcs]
      exact List.dropWhile_cons_of_neg (by decide)
    have hne : argumentText a ++ (as.map argumentText).flatten ≠ [] := by
      rw [hcs]
      exact List.cons_ne_nil _ _
    have hread : scanValue ((argumentText a ++ (as.map argumentText).flatten).length + 1)
        (argumentText a ++ (as.map argumentText).flatten) =
          .ok (a.json, (as.map argumentText).flatten) := by
      refine readsBack standard_readable a.wellFormed _ _ ?_ (delimited_texts as)
      rw [List.length_append]
      show (argumentText a).length < _
      omega
    rw [hdrop, if_neg hne, hread]
    dsimp only
    rw [ih n (by simpa using hn), List.length_append, Nat.add_sub_cancel_right, List.take_left,
      strip_argumentText]
    rfl

/-- The tool call of a group is split into its calls. -/
theorem read_split_call {g : Group} (hg : g.arguments ≠ []) :
    (_split_tool_calls [g.call]).map ToolCall.read =
      g.arguments.map fun a => (g.name, .ok a.json) := by
  have hcount : g.arguments.length < g.call.arguments.length + 1 := by
    have hlength (as : List ArgumentObject) :
        as.length ≤ (as.map argumentText).flatten.length := by
      induction as with
      | nil => exact Nat.le_refl 0
      | cons a as ih =>
        obtain ⟨cs, hcs⟩ := argumentText_braces a
        rw [List.map_cons, List.flatten_cons, List.length_append, List.length_cons, hcs,
          List.length_cons]
        omega
    exact Nat.lt_succ_of_le (hlength g.arguments)
  have hsplit : split_json_objects g.call.arguments = g.arguments.map argumentText := by
    unfold split_json_objects
    rw [show g.call.arguments = (g.arguments.map argumentText).flatten from rfl] at hcount ⊢
    rw [splitObjects_texts _ _ hcount]
    dsimp only
    rw [if_neg (by simpa using hg)]
  have hread (a : ArgumentObject) : loads (argumentText a) = .ok a.json :=
    loads_dumps standard_readable a.wellFormed
  unfold _split_tool_calls
  rw [List.flatMap_singleton, hsplit]
  dsimp only
  split
  · next hone =>
    -- a single object, whose text passes unchanged
    rw [List.length_map] at hone
    obtain ⟨a, ha⟩ : ∃ a, g.arguments = [a] := by
      rw [← List.length_eq_one_iff]
      have := List.length_pos_of_ne_nil hg
      omega
    simp [ToolCall.read, Group.call, ha, hread]
  · simp [ToolCall.read, Group.call, hread, Function.comp_def]

/-! ## The groups of a stream -/

section Groups

variable {index : ℤ} {name : String} {a : ArgumentObject} {gs : List Group} {g : Group}

theorem joinGroup_of_not_mem (h : index ∉ gs.map Group.index) :
    joinGroup index name a gs = gs ++ [⟨index, name, [a]⟩] := by
  induction gs with
  | nil => rfl
  | cons g gs ih =>
    rw [List.map_cons, List.mem_cons, not_or] at h
    rw [joinGroup, if_neg (Ne.symm h.1), ih h.2]
    rfl

theorem joinGroup_last {as : List ArgumentObject} (h : index ∉ gs.map Group.index) :
    joinGroup index name a (gs ++ [⟨index, name, as⟩]) =
      gs ++ [⟨index, name, as ++ [a]⟩] := by
  induction gs with
  | nil => simp [joinGroup]
  | cons g gs ih =>
    rw [List.map_cons, List.mem_cons, not_or] at h
    rw [List.cons_append, joinGroup, if_neg (Ne.symm h.1), ih h.2]
    rfl

theorem map_index_joinGroup :
    (joinGroup index name a gs).map Group.index =
      if index ∈ gs.map Group.index then gs.map Group.index else gs.map Group.index ++ [index] := by
  induction gs with
  | nil => rfl
  | cons g gs ih =>
    rw [joinGroup]
    by_cases hindex : g.index = index
    · simp [hindex]
    · rw [if_neg hindex, List.map_cons, ih, List.map_cons]
      have hne : index ≠ g.index := Ne.symm hindex
      split
      · next hmem => rw [if_pos (List.mem_cons_of_mem _ hmem)]
      · next hmem => rw [if_neg (by simp [hne, hmem]), List.cons_append]

/-- Every argument object of a group is that of a call of its index. -/
theorem mem_joinGroup (hg : g ∈ joinGroup index name a gs) {b : ArgumentObject}
    (hb : b ∈ g.arguments) :
    g.index = index ∧ b = a ∨ ∃ g' ∈ gs, g'.index = g.index ∧ b ∈ g'.arguments := by
  induction gs with
  | nil =>
    rw [joinGroup, List.mem_singleton] at hg
    subst hg
    exact Or.inl ⟨rfl, List.mem_singleton.mp hb⟩
  | cons g' gs ih =>
    rw [joinGroup] at hg
    split at hg
    · next hindex =>
      rcases List.mem_cons.mp hg with rfl | hrest
      · rcases List.mem_append.mp hb with hold | hnew
        · exact Or.inr ⟨g', List.mem_cons_self .., rfl, hold⟩
        · exact Or.inl ⟨hindex, List.mem_singleton.mp hnew⟩
      · exact Or.inr ⟨g, List.mem_cons_of_mem _ hrest, rfl, hb⟩
    · rcases List.mem_cons.mp hg with rfl | hrest
      · exact Or.inr ⟨g, List.mem_cons_self .., rfl, hb⟩
      · rcases ih hrest with hnew | ⟨g'', hg'', h⟩
        · exact Or.inl hnew
        · exact Or.inr ⟨g'', List.mem_cons_of_mem _ hg'', h⟩

theorem arguments_joinGroup_ne_nil (hgs : ∀ g ∈ gs, g.arguments ≠ [])
    (hg : g ∈ joinGroup index name a gs) : g.arguments ≠ [] := by
  induction gs with
  | nil =>
    rw [joinGroup, List.mem_singleton] at hg
    simp [hg]
  | cons g' gs ih =>
    rw [List.forall_mem_cons] at hgs
    rw [joinGroup] at hg
    split at hg
    · rcases List.mem_cons.mp hg with rfl | hrest
      · simp
      · exact hgs.2 g hrest
    · rcases List.mem_cons.mp hg with rfl | hrest
      · exact hgs.1
      · exact ih hgs.2 hrest

end Groups

/-- What holds of the groups of a stream: their indices are distinct, none is empty, and the
argument objects of each are those of calls of its index. -/
structure GroupsOf (calls : List OllamaToolCall) (gs : List Group) : Prop where
  nodup : (gs.map Group.index).Nodup
  nonempty : ∀ g ∈ gs, g.arguments ≠ []
  arguments : ∀ g ∈ gs, ∀ a ∈ g.arguments,
    ∃ call ∈ calls, call.effectiveIndex = some g.index ∧ call.calledArguments = a

theorem groupsOf_groups (calls : List OllamaToolCall) : GroupsOf calls (groups calls) := by
  unfold groups
  induction calls using List.reverseRecOn with
  | nil => exact ⟨List.nodup_nil, nofun, nofun⟩
  | append_singleton calls call ih =>
    rw [List.foldl_append, List.foldl_cons, List.foldl_nil]
    have hmono (g : Group) (hg : g ∈ calls.foldl addCall []) (a : ArgumentObject)
        (ha : a ∈ g.arguments) : ∃ c ∈ calls ++ [call],
          c.effectiveIndex = some g.index ∧ c.calledArguments = a := by
      obtain ⟨c, hc, h⟩ := ih.arguments g hg a ha
      exact ⟨c, List.mem_append_left _ hc, h⟩
    generalize calls.foldl addCall [] = gs at ih hmono
    unfold addCall
    split
    · next index hindex =>
      refine ⟨?_, fun g hg => arguments_joinGroup_ne_nil ih.nonempty hg, fun g hg a ha => ?_⟩
      · rw [map_index_joinGroup]
        split
        · exact ih.nodup
        · next hnew =>
          rw [← List.concat_eq_append]
          exact ih.nodup.concat hnew
      · rcases mem_joinGroup hg ha with ⟨hg', rfl⟩ | ⟨g', hg', hsame, ha'⟩
        · exact ⟨call, List.mem_append_right _ (List.mem_singleton.mpr rfl), by rw [hindex, hg'],
            rfl⟩
        · rw [← hsame]
          exact hmono g' hg' a ha'
    · exact ⟨ih.nodup, ih.nonempty, hmono⟩

/-- **What comes out**: the calls of each group in turn, under the name of the group. -/
theorem read_split_stream (chunks : List (List OllamaToolCall)) :
    (_split_tool_calls (streamToolCalls chunks)).map ToolCall.read =
      (groups chunks.flatten).flatMap fun g =>
        g.arguments.map fun a => (g.name, Except.ok a.json) := by
  have hsplit (gs : List Group) (hgs : ∀ g ∈ gs, g.arguments ≠ []) :
      (_split_tool_calls (gs.map Group.call)).map ToolCall.read =
        gs.flatMap fun g => g.arguments.map fun a => (g.name, Except.ok a.json) := by
    induction gs with
    | nil => rfl
    | cons g gs ih =>
      rw [List.forall_mem_cons] at hgs
      have hcons : _split_tool_calls ((g :: gs).map Group.call) =
          _split_tool_calls [g.call] ++ _split_tool_calls (gs.map Group.call) := by
        unfold _split_tool_calls
        rw [List.map_cons, List.flatMap_cons, List.flatMap_singleton]
      rw [hcons, List.map_append, read_split_call hgs.1, ih hgs.2, List.flatMap_cons]
  rw [streamToolCalls_eq]
  exact hsplit _ (groupsOf_groups _).nonempty

/-! ## Runs -/

/-- The calls of a run make one group. -/
theorem foldl_addCall_run {index : ℤ} {name : String} {gs : List Group}
    (hnew : index ∉ gs.map Group.index) (as : List ArgumentObject) (calls : List OllamaToolCall)
    (hcalls : ∀ call ∈ calls, call.shape = (some index, name)) :
    calls.foldl addCall (gs ++ [⟨index, name, as⟩]) =
      gs ++ [⟨index, name, as ++ calls.map OllamaToolCall.calledArguments⟩] := by
  induction calls generalizing as with
  | nil => simp
  | cons call calls ih =>
    rw [List.forall_mem_cons] at hcalls
    obtain ⟨hindex, hname⟩ := Prod.mk.inj hcalls.1
    have hadd : addCall (gs ++ [⟨index, name, as⟩]) call =
        gs ++ [⟨index, name, as ++ [call.calledArguments]⟩] := by
      unfold addCall
      rw [hindex]
      dsimp only
      rw [hname]
      exact joinGroup_last hnew
    rw [List.foldl_cons, hadd, ih _ hcalls.2]
    simp

/-- A group, as it comes out. -/
def Group.read (g : Group) : List (String × Except PyErr Json) :=
  g.arguments.map fun a => (g.name, .ok a.json)

/-- **Runs come out as they are.** -/
theorem foldl_addCall_runs {runs : List ((ℤ × String) × ℕ)} {gs : List Group}
    (hnodup : (gs.map Group.index ++ runs.map fun run => run.1.1).Nodup)
    {calls : List OllamaToolCall}
    (hcalls : calls.map OllamaToolCall.shape =
      runs.flatMap fun run => List.replicate run.2 (some run.1.1, run.1.2)) :
    (calls.foldl addCall gs).flatMap Group.read =
      gs.flatMap Group.read ++
        calls.map fun call => (call.calledName, .ok call.calledArguments.json) := by
  induction runs generalizing gs calls with
  | nil =>
    rw [List.flatMap_nil, List.map_eq_nil_iff] at hcalls
    simp [hcalls]
  | cons run runs ih =>
    obtain ⟨⟨index, name⟩, n⟩ := run
    rw [List.flatMap_cons, List.map_eq_append_iff] at hcalls
    obtain ⟨first, rest, rfl, hfirst, hrest⟩ := hcalls
    have hshape : ∀ call ∈ first, call.shape = (some index, name) := by
      intro call hcall
      exact List.eq_of_mem_replicate (hfirst ▸ List.mem_map_of_mem hcall)
    have hnew : index ∉ gs.map Group.index := by
      rw [List.nodup_append] at hnodup
      intro hmem
      exact hnodup.2.2 index hmem index (List.mem_cons_self ..) rfl
    rw [List.foldl_append, List.map_append]
    cases first with
    | nil =>
      have hnodup' : (gs.map Group.index ++ runs.map fun run => run.1.1).Nodup := by
        refine hnodup.sublist (List.Sublist.append_left ?_ _)
        exact List.sublist_cons_self _ _
      exact ih hnodup' hrest
    | cons call first =>
      rw [List.forall_mem_cons] at hshape
      obtain ⟨hindex, hname⟩ := Prod.mk.inj hshape.1
      have hadd : addCall gs call = gs ++ [⟨index, name, [call.calledArguments]⟩] := by
        unfold addCall
        rw [hindex]
        dsimp only
        rw [hname]
        exact joinGroup_of_not_mem hnew
      rw [List.foldl_cons, hadd, foldl_addCall_run hnew _ _ hshape.2]
      have hnodup' : ((gs ++ [(⟨index, name, [call.calledArguments] ++
          first.map OllamaToolCall.calledArguments⟩ : Group)]).map Group.index ++
            runs.map fun run => run.1.1).Nodup := by
        simpa using hnodup
      rw [ih hnodup' hrest, List.flatMap_append, List.flatMap_singleton, List.append_assoc]
      congr 2
      have hnames (c : OllamaToolCall) (hc : c ∈ call :: first) : c.calledName = name := by
        rcases List.mem_cons.mp hc with rfl | hc
        · exact hname
        · exact (Prod.mk.inj (hshape.2 c hc)).2
      rw [Group.read, ← List.map_singleton, ← List.map_append, List.map_map, List.singleton_append]
      refine List.map_congr_left fun c hc => ?_
      rw [hnames c hc]
      rfl

/-- The calls of runs survive. -/
theorem survive_of_inRuns {chunks : List (List OllamaToolCall)}
    (h : InRuns (chunks.flatten.map OllamaToolCall.shape)) : Survive chunks := by
  obtain ⟨runs, hnodup, hshapes⟩ := h
  unfold Survive
  rw [read_split_stream]
  exact @foldl_addCall_runs runs [] hnodup _ hshapes

/-! ## Calls that record their index -/

/-- An argument object in which an index is recorded. -/
def indexObject (index : Option ℤ) : ArgumentObject where
  entries := [("index", index.elim .null .int)]
  wellFormed := by
    refine .dict (List.nodup_singleton _) fun v hv => ?_
    rw [List.mem_singleton] at hv
    subst hv
    cases index with
    | none => exact .null
    | some i => exact .int i

/-- A call with an index and a name whose arguments record its index. -/
def recordingCall (shape : Option ℤ × String) : OllamaToolCall :=
  ⟨some shape.1, none, some shape.2, some (indexObject shape.1)⟩

/-- The index that arguments record, and the name of their call. -/
def recorded : String × Except PyErr Json → Option ℤ × String
  | (name, .ok (.dict [(_, .int index)])) => (some index, name)
  | (name, _) => (none, name)

theorem recorded_indexObject (name : String) (index : Option ℤ) :
    recorded (name, .ok (indexObject index).json) = (index, name) := by
  cases index <;> rfl

/-- A group of calls that record their index comes out as a run. -/
theorem recorded_read_group {shapes : List (Option ℤ × String)} {gs : List Group}
    (hgs : GroupsOf (shapes.map recordingCall) gs) {g : Group} (hg : g ∈ gs) :
    g.read.map recorded = List.replicate g.arguments.length (some g.index, g.name) := by
  rw [List.eq_replicate_iff]
  refine ⟨by simp [Group.read], fun shape hshape => ?_⟩
  obtain ⟨read, hread, rfl⟩ := List.mem_map.mp hshape
  obtain ⟨a, ha, rfl⟩ := List.mem_map.mp hread
  -- the argument object is that of a call of the index of the group, so it records this index
  obtain ⟨call, hcall, hindex, rfl⟩ := hgs.arguments g hg a ha
  obtain ⟨s, -, rfl⟩ := List.mem_map.mp hcall
  have hs : s.1 = some g.index := hindex
  show recorded (g.name, .ok (indexObject s.1).json) = _
  rw [hs, recorded_indexObject]

/-- Calls that record their index survive only as runs. -/
theorem inRuns_of_survive {shapes : List (List (Option ℤ × String))}
    (h : Survive (shapes.map (List.map recordingCall))) : InRuns shapes.flatten := by
  have hflatten : (shapes.map (List.map recordingCall)).flatten =
      shapes.flatten.map recordingCall := List.map_flatten.symm
  unfold Survive at h
  rw [read_split_stream, hflatten] at h
  have hgs := groupsOf_groups (shapes.flatten.map recordingCall)
  generalize groups (shapes.flatten.map recordingCall) = gs at h hgs
  refine ⟨gs.map fun g => ((g.index, g.name), g.arguments.length), ?_, ?_⟩
  · rw [List.map_map]
    exact hgs.nodup
  · have hout := congrArg (List.map recorded) h
    have hin : ((shapes.flatten.map recordingCall).map fun call =>
        (call.calledName, Except.ok call.calledArguments.json)).map recorded =
          shapes.flatten := by
      rw [List.map_map, List.map_map]
      conv_rhs => rw [← List.map_id shapes.flatten]
      refine List.map_congr_left fun s _ => ?_
      exact recorded_indexObject s.2 s.1
    rw [hin, List.map_flatMap] at hout
    rw [← hout, List.flatMap_map]
    exact List.flatMap_congr fun g hg => recorded_read_group hgs hg

/-- **Tool calls survive a stream, whatever their arguments, exactly when they come in runs**: no
index is null, and the calls of one index follow one another and have one name. -/
theorem calls_survive_iff_inRuns (shapes : List (List (Option ℤ × String))) :
    (∀ chunks : List (List OllamaToolCall),
        chunks.map (List.map OllamaToolCall.shape) = shapes → Survive chunks) ↔
      InRuns shapes.flatten := by
  constructor
  · intro h
    refine inRuns_of_survive (h _ ?_)
    have hshape : OllamaToolCall.shape ∘ recordingCall = id := rfl
    simp [hshape]
  · rintro h chunks rfl
    apply survive_of_inRuns
    rwa [List.map_flatten]

/-- Two calls without an index, in one chunk, become two calls of the second function. -/
theorem calls_not_survive :
    ¬ Survive [[⟨none, none, some "get_weather", none⟩, ⟨none, none, some "get_time", none⟩]] := by
  intro h
  have hnames := congrArg (List.map Prod.fst) h
  rw [read_split_stream] at hnames
  revert hnames
  decide

end OpenLaunch.Streams
