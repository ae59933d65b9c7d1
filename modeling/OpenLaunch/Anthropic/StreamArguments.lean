import OpenLaunch.Anthropic.StreamDeltas
import OpenLaunch.Anthropic.StreamWellFormed

/-! # What reaches the block of a tool call

The `input_json_delta` events of a tool call's block against the argument fragments the call was
sent. The generator's record of each call is the `Progress` of the call through its own deltas, so a
call with a name gets all of its arguments exactly when its fragments are in time: the fragments
buffered before the name are never emitted, and neither are those after arguments that once were
complete. -/

namespace OpenLaunch.Anthropic

open Python StreamState

variable {s s' : StreamState} {r : Routing} {key : ToolKey} {d : ToolDelta}

/-! ## The events of one tool call -/

/-- The call an id is the id of. -/
def ToolId.key? : ToolId → Option ToolKey
  | .given id => id.key.toOption.map .given
  | .generated n => some (.generated n)

/-- The indices of the blocks of a tool call. -/
def blocksOf (key : ToolKey) (out : List Event) : List ℤ :=
  out.filterMap fun
    | .tool_start index id _ => if id.key? = some key then some index else none
    | _ => none

/-- The arguments in the events at some indices. -/
def argumentsIn (p : ℤ → Prop) [DecidablePred p] (out : List Event) : String :=
  String.join (out.filterMap fun
    | .input_json_delta index partial_json => if p index then some partial_json else none
    | _ => none)

/-- **The arguments emitted for a tool call**: those of the deltas of its block. -/
def emittedArguments (key : ToolKey) (out : List Event) : String :=
  argumentsIn (· ∈ blocksOf key out) out

/-- **The argument fragments received for a tool call.** -/
def receivedArguments (key : ToolKey) (deltas : List ToolDelta) : String :=
  joinArguments (ownDeltas key deltas)

theorem argumentsIn_congr {p q : ℤ → Prop} [DecidablePred p] [DecidablePred q]
    (h : ∀ index, p index ↔ q index) (out : List Event) :
    argumentsIn p out = argumentsIn q out := by
  unfold argumentsIn
  simp only [h]

theorem argumentsIn_append (p : ℤ → Prop) [DecidablePred p] (out events : List Event) :
    argumentsIn p (out ++ events) = argumentsIn p out ++ argumentsIn p events := by
  simp [argumentsIn]

/-- Nothing is at an index no delta has. -/
theorem argumentsIn_eq_empty {p : ℤ → Prop} [DecidablePred p] {out : List Event}
    (h : ∀ index partial_json, .input_json_delta index partial_json ∈ out → ¬ p index) :
    argumentsIn p out = "" := by
  have hnil : (out.filterMap fun
      | .input_json_delta index partial_json => if p index then some partial_json else none
      | _ => none) = ([] : List String) := by
    rw [List.filterMap_eq_nil_iff]
    intro e he
    cases e with
    | input_json_delta index partial_json => exact if_neg (h index partial_json he)
    | _ => rfl
  rw [argumentsIn, hnil]
  rfl

/-- An event that belongs to no tool call. -/
def Event.other : Event → Bool
  | .tool_start _ _ _ | .input_json_delta _ _ => false
  | _ => true

theorem argumentsIn_of_other {p : ℤ → Prop} [DecidablePred p] {events : List Event}
    (h : ∀ e ∈ events, e.other = true) : argumentsIn p events = "" :=
  argumentsIn_eq_empty fun _ _ hmem => by cases h _ hmem

/-! ## The generator's records -/

/-- The record of a tool call is its progress; the name is left out. -/
structure Matches (out : List Event) (key : ToolKey) (tool : TrackedToolCall) (p : Progress) :
    Prop where
  id : tool.id.key? = some key
  arguments : tool.arguments = p.arguments
  started : tool.started = p.named
  stopped : tool.stopped = p.stopped
  sent : p.named = true → argumentsIn (· = tool.block_index) out = p.sent

/-- **What is known of a tool call**: nothing before its first delta, then its record. -/
def Tracked (s : StreamState) (key : ToolKey) (ds : List ToolDelta) : Prop :=
  match s.tracked_tool_calls.get? key with
  | none => ds = []
  | some tool => Matches s.out key tool (.run ds) ∧ tool.name.truthy = (Progress.run ds).named

/-- The events so far belong to the records. -/
structure Emitted (s : StreamState) : Prop where
  below : ∀ index partial_json, .input_json_delta index partial_json ∈ s.out →
    index < s.current_block_index
  started : ∀ key tool, s.tracked_tool_calls.get? key = some tool → tool.started = true →
    ∃ name, .tool_start tool.block_index tool.id name ∈ s.out
  starts : ∀ index id name, .tool_start index id name ∈ s.out →
    ∃ key tool, s.tracked_tool_calls.get? key = some tool ∧ tool.started = true ∧
      tool.block_index = index ∧ tool.id = id

/-- The routes of the generator are those of the deltas so far. -/
structure Routed (s : StreamState) (r : Routing) : Prop where
  generated : s.generated = r.generated
  route : ∀ index, s.index_to_tool_id.get? index = r.latest index

/-- **The generator follows the deltas.** -/
structure Follows (s : StreamState) (r : Routing) : Prop where
  routed : Routed s r
  emitted : Emitted s
  tracked : ∀ key, Tracked s key (r.own key)

/-- Within a delta: the call it belongs to is found, its record is as before or new, and a name in
the record that has not been announced yet is the one of the delta. -/
structure Found (s : StreamState) (r : Routing) (d : ToolDelta) (key : ToolKey) : Prop where
  owner : r.owner d = key
  routed : Routed s (r.add d)
  emitted : Emitted s
  others : ∀ key', key' ≠ key → Tracked s key' (r.own key')
  found : ∃ tool, s.tracked_tool_calls.get? key = some tool ∧
    Matches s.out key tool (.run (r.own key)) ∧
    (tool.name.truthy || d.name.truthy) = ((Progress.run (r.own key)).named || d.name.truthy)

/-- Within a delta: its name has been taken over. -/
structure NameAdded (s : StreamState) (r : Routing) (d : ToolDelta) (key : ToolKey) : Prop where
  owner : r.owner d = key
  routed : Routed s (r.add d)
  emitted : Emitted s
  others : ∀ key', key' ≠ key → Tracked s key' (r.own key')
  added : ∃ tool, s.tracked_tool_calls.get? key = some tool ∧
    Matches s.out key tool ((Progress.run (r.own key)).addName d.name) ∧
    tool.name.truthy = ((Progress.run (r.own key)).addName d.name).named

/-! ## One change of the state -/

/-- A call is as before when its record is and no arguments come to its block. -/
theorem Tracked.frame {ds : List ToolDelta} (h : Tracked s key ds)
    (hget : s'.tracked_tool_calls.get? key = s.tracked_tool_calls.get? key)
    (hsent : ∀ tool, s.tracked_tool_calls.get? key = some tool → tool.started = true →
      argumentsIn (· = tool.block_index) s'.out = argumentsIn (· = tool.block_index) s.out) :
    Tracked s' key ds := by
  unfold Tracked at h ⊢
  rw [hget]
  cases hkey : s.tracked_tool_calls.get? key with
  | none =>
    rw [hkey] at h
    exact h
  | some tool =>
    rw [hkey] at h
    obtain ⟨hmatches, hname⟩ := h
    refine ⟨{ hmatches with sent := fun hnamed => ?_ }, hname⟩
    rw [hsent tool hkey (hmatches.started.trans hnamed)]
    exact hmatches.sent hnamed

/-- The events still belong to the records when a record keeps its id and its block. -/
theorem Emitted.setTool {tool : TrackedToolCall} (h : Emitted s)
    (hold : ∀ old, s.tracked_tool_calls.get? key = some old → tool.started = old.started ∧
      tool.block_index = old.block_index ∧ tool.id = old.id)
    (hnew : s.tracked_tool_calls.get? key = none → tool.started = false) :
    Emitted (s.setTool key tool) := by
  refine ⟨h.below, fun key' tool' hget hstarted => ?_, fun index id name hmem => ?_⟩
  · rw [get?_setTool] at hget
    split at hget
    · cases hget
      cases hkey : s.tracked_tool_calls.get? key with
      | none =>
        rw [hnew hkey] at hstarted
        cases hstarted
      | some old =>
        obtain ⟨hst, hix, hid⟩ := hold old hkey
        obtain ⟨name, hmem⟩ := h.started key old hkey (hst ▸ hstarted)
        exact ⟨name, by rw [hix, hid]; exact hmem⟩
    · exact h.started key' tool' hget hstarted
  · obtain ⟨key', old, hget, hstarted, hindex, hid⟩ := h.starts index id name hmem
    by_cases heq : key' = key
    · subst heq
      obtain ⟨hst, hix, hid'⟩ := hold old hget
      exact ⟨key', tool, by rw [get?_setTool, if_pos rfl], hst.trans hstarted, hix.trans hindex,
        hid'.trans hid⟩
    · exact ⟨key', old, by rw [get?_setTool, if_neg heq]; exact hget, hstarted, hindex, hid⟩

/-- The events still belong to the records after an event of no call, or an argument delta at an
index in use. -/
theorem Emitted.append {events : List Event} (h : Emitted s) (hout : s'.out = s.out ++ events)
    (htracked : s'.tracked_tool_calls = s.tracked_tool_calls)
    (hcurrent : s.current_block_index ≤ s'.current_block_index)
    (hevents : ∀ e ∈ events, e.other = true ∨
      ∃ index partial_json, e = .input_json_delta index partial_json ∧
        index < s.current_block_index) : Emitted s' := by
  refine ⟨fun index partial_json hmem => ?_, fun key tool hget hstarted => ?_,
    fun index id name hmem => ?_⟩
  · rw [hout, List.mem_append] at hmem
    rcases hmem with hmem | hmem
    · exact Int.lt_of_lt_of_le (h.below index partial_json hmem) hcurrent
    · rcases hevents _ hmem with hother | ⟨index', partial_json', heq, hlt⟩
      · cases hother
      · cases heq
        exact Int.lt_of_lt_of_le hlt hcurrent
  · rw [htracked] at hget
    obtain ⟨name, hmem⟩ := h.started key tool hget hstarted
    exact ⟨name, by rw [hout]; exact List.mem_append_left _ hmem⟩
  · rw [hout, List.mem_append] at hmem
    rw [htracked]
    rcases hmem with hmem | hmem
    · exact h.starts index id name hmem
    · rcases hevents _ hmem with hother | ⟨index', partial_json', heq, -⟩
      · cases hother
      · cases heq

/-- The events still belong to the records when neither changes. -/
theorem Emitted.congr (h : Emitted s) (hout : s'.out = s.out)
    (htracked : s'.tracked_tool_calls = s.tracked_tool_calls)
    (hcurrent : s'.current_block_index = s.current_block_index) : Emitted s' := by
  refine h.append ?_ htracked (Int.le_of_eq hcurrent.symm) (List.forall_mem_nil _)
  rw [hout, List.append_nil]

/-- The events belong to the records after a block has been started. -/
theorem Emitted.startBlock {tool old : TrackedToolCall} (h : Emitted s)
    (hkey : s.tracked_tool_calls.get? key = some old) (hunstarted : old.started = false) :
    Emitted (s.startBlock key tool) := by
  have hget : ∀ key', (s.startBlock key tool).tracked_tool_calls.get? key' =
      if key' = key then
        some { tool with block_index := s.current_block_index, started := true }
      else s.tracked_tool_calls.get? key' := fun key' => Dict.get?_set ..
  have hout : (s.startBlock key tool).out =
      s.out ++ [.tool_start s.current_block_index tool.id tool.name] := rfl
  refine ⟨fun index partial_json hmem => ?_, fun key' tool' hget' hstarted => ?_,
    fun index id name hmem => ?_⟩
  · rw [hout, List.mem_append, List.mem_singleton] at hmem
    rcases hmem with hmem | heq
    · exact Int.lt_trans (h.below index partial_json hmem) (Int.lt_succ _)
    · cases heq
  · rw [hget] at hget'
    split at hget'
    · cases hget'
      exact ⟨tool.name, by rw [hout]; exact List.mem_append_right _ (List.mem_singleton.mpr rfl)⟩
    · obtain ⟨name, hmem⟩ := h.started key' tool' hget' hstarted
      exact ⟨name, by rw [hout]; exact List.mem_append_left _ hmem⟩
  · rw [hout, List.mem_append, List.mem_singleton] at hmem
    rcases hmem with hmem | heq
    · obtain ⟨key', tool', hget', hstarted, hindex, hid⟩ := h.starts index id name hmem
      have hne : key' ≠ key := by
        rintro rfl
        rw [hkey] at hget'
        cases hget'
        rw [hunstarted] at hstarted
        cases hstarted
      exact ⟨key', tool', by rw [hget, if_neg hne]; exact hget', hstarted, hindex, hid⟩
    · cases heq
      exact ⟨key, { tool with block_index := s.current_block_index, started := true },
        by rw [hget, if_pos rfl], rfl, rfl, rfl⟩

/-! ## One delta -/

/-- A delta that leaves the routes as they are is at an index routed already. -/
theorem Routed.add_latest (h : Routed s r) (hid : d.id = none)
    (hlatest : r.latest d.index = some key) : Routed s (r.add d) ∧ r.owner d = key := by
  have howner : r.owner d = key := by
    unfold Routing.owner
    rw [hid, hlatest]
    rfl
  refine ⟨⟨?_, fun index => ?_⟩, howner⟩
  · rw [h.generated]
    exact (if_neg fun hnew => by rw [hlatest] at hnew; cases hnew.2).symm
  · rw [h.route, Routing.latest_add]
    split
    · rename_i heq
      rw [heq, hlatest, howner]
    · rfl

/-- A delta that sets the route of its index. -/
theorem Routed.add_route (h : Routed s r)
    (hroutes : s'.index_to_tool_id = s.index_to_tool_id.set d.index (r.owner d))
    (hgenerated : s'.generated = (r.add d).generated) : Routed s' (r.add d) := by
  refine ⟨hgenerated, fun index => ?_⟩
  rw [hroutes, Dict.get?_set, Routing.latest_add, h.route]

theorem tracked_of_get? {tool : TrackedToolCall} {ds : List ToolDelta} (h : Tracked s key ds)
    (hkey : s.tracked_tool_calls.get? key = some tool) :
    Matches s.out key tool (.run ds) ∧ tool.name.truthy = (Progress.run ds).named := by
  unfold Tracked at h
  rw [hkey] at h
  exact h

/-- A call that is not tracked has had no delta. -/
theorem own_eq_nil {ds : List ToolDelta} (h : Tracked s key ds)
    (hkey : s.tracked_tool_calls.get? key = none) : ds = [] := by
  unfold Tracked at h
  rw [hkey] at h
  exact h

/-- The record of another call does not change. -/
theorem Tracked.setTool_ne {tool : TrackedToolCall} {key' : ToolKey} {ds : List ToolDelta}
    (h : Tracked s key' ds) (hne : key' ≠ key) : Tracked (s.setTool key tool) key' ds :=
  h.frame (by rw [get?_setTool, if_neg hne]) fun _ _ _ => rfl

/-- A new record is found. -/
theorem Follows.found_new {id : ToolId} (h : Follows s r) (howner : r.owner d = key)
    (hnew : s.tracked_tool_calls.get? key = none) (hid : id.key? = some key)
    (htracked : s'.tracked_tool_calls = (s.setTool key (newToolCall id d.name)).tracked_tool_calls)
    (hout : s'.out = s.out) (hcurrent : s'.current_block_index = s.current_block_index)
    (hrouted : Routed s' (r.add d)) : Found s' r d key := by
  have hemitted : Emitted (s.setTool key (newToolCall id d.name)) :=
    h.emitted.setTool (fun old hold => by rw [hnew] at hold; cases hold) fun _ => rfl
  refine ⟨howner, hrouted, hemitted.congr hout htracked hcurrent, ?_, ?_⟩
  · intro key' hne
    refine ((h.tracked key').setTool_ne hne).frame (by rw [htracked]) fun tool _ _ => ?_
    rw [hout]
    rfl
  · refine ⟨newToolCall id d.name, by rw [htracked]; exact Dict.get?_set_self .., ?_, ?_⟩
    · rw [own_eq_nil (h.tracked key) hnew]
      exact ⟨hid, rfl, rfl, rfl, fun hnamed => by cases hnamed⟩
    · rw [own_eq_nil (h.tracked key) hnew]
      exact Bool.or_self _

/-- A record that exists is found. -/
theorem Follows.found_old {tool : TrackedToolCall} (h : Follows s r) (howner : r.owner d = key)
    (hkey : s.tracked_tool_calls.get? key = some tool)
    (htracked : s'.tracked_tool_calls = s.tracked_tool_calls) (hout : s'.out = s.out)
    (hcurrent : s'.current_block_index = s.current_block_index)
    (hrouted : Routed s' (r.add d)) : Found s' r d key := by
  have hemitted : Emitted s' := h.emitted.congr hout htracked hcurrent
  have hsame : ∀ key', Tracked s' key' (r.own key') := fun key' =>
    (h.tracked key').frame (by rw [htracked]) fun _ _ _ => by rw [hout]
  have hkey' : s'.tracked_tool_calls.get? key = some tool := by rw [htracked, hkey]
  obtain ⟨hmatches, hname⟩ := tracked_of_get? (hsame key) hkey'
  exact ⟨howner, hrouted, hemitted, fun key' _ => hsame key', tool, hkey', hmatches, by rw [hname]⟩

/-- The name of a delta is taken over, and the block is started once there is a name. -/
theorem Found.startTool (h : Found s r d key) :
    NameAdded (StreamState.startTool key d.name s) r d key := by
  obtain ⟨tool, hkey, hmatches, hname⟩ := h.found
  unfold StreamState.startTool
  rw [hkey]
  dsimp only
  generalize htool : (if (d.name.truthy && !tool.name.truthy) = true then
    { tool with name := d.name } else tool) = tool'
  obtain ⟨hid, harguments, hindex, hstarted, hstopped, hname'⟩ : tool'.id = tool.id ∧
      tool'.arguments = tool.arguments ∧ tool'.block_index = tool.block_index ∧
      tool'.started = tool.started ∧ tool'.stopped = tool.stopped ∧
      tool'.name.truthy = (tool.name.truthy || d.name.truthy) := by
    subst htool
    split
    · rename_i hcond
      obtain ⟨hd, ht⟩ : d.name.truthy = true ∧ tool.name.truthy = false := by simpa using hcond
      exact ⟨rfl, rfl, rfl, rfl, rfl, by rw [hd, ht]; rfl⟩
    · rename_i hcond
      refine ⟨rfl, rfl, rfl, rfl, rfl, ?_⟩
      cases htruthy : tool.name.truthy <;> simp_all
  rw [hname] at hname'
  split
  · -- the block is started: nothing has been sent, and nothing is at the new index
    rename_i hcond
    obtain ⟨hunstarted, htruthy⟩ : tool'.started = false ∧ tool'.name.truthy = true := by
      simpa using hcond
    have hunnamed : (Progress.run (r.own key)).named = false := by
      rw [← hmatches.started, ← hstarted]
      exact hunstarted
    obtain ⟨hnotstopped, hsent⟩ := Progress.run_unnamed _ hunnamed
    have hemitted : Emitted (s.startBlock key tool') :=
      h.emitted.startBlock hkey (hstarted ▸ hunstarted)
    have hout : ∀ index, argumentsIn (· = index) (s.startBlock key tool').out =
        argumentsIn (· = index) s.out := by
      intro index
      refine Eq.trans (argumentsIn_append _ s.out [_]) ?_
      exact String.append_empty
    have hget : ∀ key', (s.startBlock key tool').tracked_tool_calls.get? key' =
        if key' = key then
          some { tool' with block_index := s.current_block_index, started := true }
        else s.tracked_tool_calls.get? key' := fun key' => Dict.get?_set ..
    refine ⟨h.owner, ⟨h.routed.generated, h.routed.route⟩,
      hemitted.congr rfl rfl rfl, fun key' hne => ?_,
      { tool' with block_index := s.current_block_index, started := true },
      (hget key).trans (if_pos rfl), ⟨hid ▸ hmatches.id, harguments.trans hmatches.arguments, ?_,
        hstopped.trans hmatches.stopped, fun _ => ?_⟩, hname'⟩
    · exact (h.others key' hne).frame ((hget key').trans (if_neg hne)) fun old _ _ => hout _
    · exact htruthy.symm.trans hname'
    · refine (hout _).trans (Eq.trans ?_ hsent.symm)
      refine argumentsIn_eq_empty fun index partial_json hmem => ?_
      exact Int.ne_of_lt (h.emitted.below index partial_json hmem)
  · rename_i hcond
    have hnamed : tool'.started = ((Progress.run (r.own key)).addName d.name).named := by
      show _ = ((Progress.run (r.own key)).named || d.name.truthy)
      rw [hstarted, hmatches.started]
      cases hrun : (Progress.run (r.own key)).named with
      | true => rfl
      | false =>
        have hunstarted : tool'.started = false := by rw [hstarted, hmatches.started, hrun]
        have htruthy : tool'.name.truthy = false := by
          by_contra htrue
          exact hcond (by simp [hunstarted, htrue])
        rw [hname', hrun] at htruthy
        exact htruthy.symm
    refine ⟨h.owner, ⟨h.routed.generated, h.routed.route⟩, h.emitted.setTool ?_ ?_,
      fun key' hne => (h.others key' hne).setTool_ne hne, tool', by rw [get?_setTool, if_pos rfl],
      ⟨hid ▸ hmatches.id, harguments.trans hmatches.arguments, hnamed,
        hstopped.trans hmatches.stopped, fun hadded => ?_⟩, hname'⟩
    · intro old hold
      rw [hkey] at hold
      cases hold
      exact ⟨hstarted, hindex, hid⟩
    · intro hnone
      rw [hkey] at hnone
      cases hnone
    · rw [hindex]
      exact hmatches.sent (by rw [← hmatches.started, ← hstarted, hnamed, hadded])

/-- The record of the delta's own call is the last thing to change. -/
theorem NameAdded.follows {tool : TrackedToolCall} {p : Progress} (h : NameAdded s r d key)
    (hrun : Progress.run ((r.add d).own key) = p)
    (hgenerated : s'.generated = s.generated) (hroutes : s'.index_to_tool_id = s.index_to_tool_id)
    (hget : ∀ key', s'.tracked_tool_calls.get? key' =
      if key' = key then some tool else s.tracked_tool_calls.get? key')
    (hemitted : Emitted s') (hmatches : Matches s'.out key tool p)
    (hname : tool.name.truthy = p.named)
    (hothers : ∀ key' old, key' ≠ key → s.tracked_tool_calls.get? key' = some old →
      old.started = true →
      argumentsIn (· = old.block_index) s'.out = argumentsIn (· = old.block_index) s.out) :
    Follows s' (r.add d) := by
  refine ⟨⟨hgenerated.trans h.routed.generated, fun index => ?_⟩, hemitted, fun key' => ?_⟩
  · rw [hroutes]
    exact h.routed.route index
  · by_cases heq : key' = key
    · subst heq
      unfold Tracked
      rw [hget, if_pos rfl, hrun]
      exact ⟨hmatches, hname⟩
    · rw [Routing.own_add_of_ne _ _ (h.owner ▸ heq)]
      exact (h.others key' heq).frame ((hget key').trans (if_neg heq)) fun old =>
        hothers key' old heq

/-- A delta without a fragment ends with its name. -/
theorem NameAdded.follows_of_empty (h : NameAdded s r d key) (hempty : d.arguments = "") :
    Follows s (r.add d) := by
  obtain ⟨tool, hkey, hmatches, hname⟩ := h.added
  refine h.follows ?_ rfl rfl (fun key' => ?_) h.emitted hmatches hname fun _ _ _ _ _ => rfl
  · rw [← h.owner, Routing.own_add_owner, Progress.run_concat, Progress.step, if_pos hempty]
  · split
    · rename_i heq
      rw [heq, hkey]
    · rfl

/-- A fragment arrives at one index. -/
theorem argumentsIn_delta {events : List Event} (h : ∀ e ∈ events, e.other = true)
    (out : List Event) (fragment : String) (index index' : ℤ) :
    argumentsIn (· = index') (out ++ (.input_json_delta index fragment :: events)) =
      argumentsIn (· = index') out ++ if index = index' then fragment else "" := by
  rw [← List.singleton_append, argumentsIn_append, argumentsIn_append, argumentsIn_of_other h,
    String.append_empty]
  by_cases hindex : index = index' <;> simp [argumentsIn, hindex]

/-- A fragment for an open block. -/
theorem Matches.addFragment_open {out events : List Event} {tool : TrackedToolCall} {p : Progress}
    (h : Matches out key tool p) (hstarted : tool.started = true) (hstopped : tool.stopped = false)
    (hevents : ∀ e ∈ events, e.other = true) (fragment : String) :
    Matches (out ++ (.input_json_delta tool.block_index fragment :: events)) key
      { tool with
        arguments := tool.arguments ++ fragment
        stopped := isComplete (tool.arguments ++ fragment) } (p.addFragment fragment) := by
  unfold Progress.addFragment
  rw [if_pos (by rw [← h.started, ← h.stopped, hstarted, hstopped]; rfl)]
  refine ⟨h.id, ?_, h.started, ?_, fun hnamed => ?_⟩
  · rw [h.arguments]
  · rw [h.arguments]
  · rw [argumentsIn_delta hevents, if_pos rfl, h.sent hnamed]

/-- A fragment for a block that is not open is only buffered. -/
theorem Matches.addFragment_closed {out : List Event} {tool : TrackedToolCall} {p : Progress}
    (h : Matches out key tool p) (hclosed : ¬ (tool.started && !tool.stopped) = true)
    (fragment : String) :
    Matches out key { tool with arguments := tool.arguments ++ fragment }
      (p.addFragment fragment) := by
  unfold Progress.addFragment
  rw [if_neg (by rw [← h.started, ← h.stopped]; exact hclosed)]
  exact ⟨h.id, by rw [h.arguments], h.started, h.stopped, h.sent⟩

theorem addFragment_named (p : Progress) (fragment : String) :
    (p.addFragment fragment).named = p.named := by
  unfold Progress.addFragment
  split <;> rfl

/-- A fragment is buffered and, while the block is open, emitted; `c` is what a reader of the stream
has seen. -/
theorem NameAdded.addArguments {c : Blocks} (h : NameAdded s r d key) (hagrees : Agrees s c)
    (hfragment : d.arguments ≠ "") :
    Follows (StreamState.addArguments key d.arguments s) (r.add d) := by
  obtain ⟨tool, hkey, hmatches, hname⟩ := h.added
  have hrun : Progress.run ((r.add d).own key) =
      ((Progress.run (r.own key)).addName d.name).addFragment d.arguments := by
    rw [← h.owner, Routing.own_add_owner, Progress.run_concat, Progress.step, if_neg hfragment]
  have hname' := hname.trans (addFragment_named _ d.arguments).symm
  have hemitted : ∀ stopped, Emitted (s.setTool key
      { tool with arguments := tool.arguments ++ d.arguments, stopped := stopped }) := by
    intro stopped
    refine h.emitted.setTool (fun old hold => ?_) fun hnone => ?_
    · rw [hkey] at hold
      cases hold
      exact ⟨rfl, rfl, rfl⟩
    · rw [hkey] at hnone
      cases hnone
  unfold StreamState.addArguments
  rw [hkey]
  dsimp only
  split
  · rename_i hcond
    obtain ⟨hstarted, hstopped⟩ : tool.started = true ∧ tool.stopped = false := by simpa using hcond
    have hbelow := hagrees.below key tool hkey hstarted
    -- the delta, and a stop if the arguments are complete
    have happended : ∀ (events : List Event) (t : StreamState), (∀ e ∈ events, e.other = true) →
        t = { s.setTool key { tool with
            arguments := tool.arguments ++ d.arguments
            stopped := isComplete (tool.arguments ++ d.arguments) } with
          out := s.out ++ (.input_json_delta tool.block_index d.arguments :: events) } →
        Follows t (r.add d) := by
      rintro events t hevents rfl
      refine h.follows hrun rfl rfl (fun key' => get?_setTool ..)
        ((hemitted _).append rfl rfl (Int.le_refl _) ?_)
        (hmatches.addFragment_open hstarted hstopped hevents d.arguments) hname' ?_
      · intro e he
        rcases List.mem_cons.mp he with rfl | he
        · exact .inr ⟨_, _, rfl, hbelow⟩
        · exact .inl (hevents e he)
      · intro key' old hne hget hst
        refine (argumentsIn_delta hevents ..).trans ?_
        rw [if_neg, String.append_empty]
        intro hindex
        exact hne (hagrees.distinct key' key old tool hget hkey hst hstarted hindex.symm)
    split
    · rename_i hcomplete
      refine happended [.content_block_stop tool.block_index] _ (by simp [Event.other]) ?_
      simp only [hcomplete, emit, StreamState.setTool, List.append_assoc, List.singleton_append]
    · rename_i hcomplete
      refine happended [] _ (List.forall_mem_nil _) ?_
      rw [Bool.not_eq_true] at hcomplete
      simp only [hcomplete, hstopped, emit, StreamState.setTool]
  · rename_i hclosed
    exact h.follows hrun rfl rfl (fun key' => get?_setTool ..) (hemitted tool.stopped)
      (hmatches.addFragment_closed hclosed d.arguments) hname' fun _ _ _ _ _ => rfl

/-! ## The loop on an OpenAI stream -/

/-- The generator follows the deltas, and no tracked call with a name lacks its block. -/
def FollowsBetween (s : StreamState) (r : Routing) : Prop := Follows s r ∧ Between s

/-- The same among the tool calls of a chunk. -/
def FollowsAmong (s : StreamState) (r : Routing) : Prop :=
  Follows s r ∧ Among s ∧ NamedStarted s

variable {index id name fragment : Json}

theorem deltaId_eq_ok {id' : Option Json.Key} (h : deltaId id = .ok id') :
    (∃ k, id.truthy = true ∧ id.key = .ok k ∧ id' = some k) ∨ id.truthy = false ∧ id' = none := by
  unfold deltaId at h
  split at h
  · rename_i htruthy
    cases hk : id.key with
    | ok k =>
      rw [hk] at h
      cases h
      exact .inl ⟨k, htruthy, rfl, rfl⟩
    | error e =>
      rw [hk] at h
      cases h
  · rename_i hfalsy
    cases h
    exact .inr ⟨by simpa using hfalsy, rfl⟩

theorem deltaArguments_eq_ok {a : String} (h : deltaArguments fragment = .ok a) :
    fragment.truthy = true ∧ fragment = .str a ∨ fragment.truthy = false ∧ a = "" := by
  unfold deltaArguments at h
  split at h
  · rename_i htruthy
    split at h
    · cases h
      exact .inl ⟨htruthy, rfl⟩
    · cases h
  · rename_i hfalsy
    cases h
    exact .inr ⟨by simpa using hfalsy, rfl⟩

/-- What the fields of a delta are, by the type of its id and of its fragment. -/
theorem fieldsDelta_eq_ok (h : fieldsDelta index id name fragment = .ok d) :
    ((∃ k, id.truthy = true ∧ id.key = .ok k ∧ d.id = some k) ∨ id.truthy = false ∧ d.id = none) ∧
      index.key = .ok d.index ∧ d.name = name ∧
      (fragment.truthy = true ∧ fragment = .str d.arguments ∨
        fragment.truthy = false ∧ d.arguments = "") := by
  unfold fieldsDelta at h
  obtain ⟨id', hid, h⟩ := bind_eq_ok.mp h
  obtain ⟨index', hindex, h⟩ := bind_eq_ok.mp h
  obtain ⟨a, ha, h⟩ := bind_eq_ok.mp h
  cases h
  exact ⟨deltaId_eq_ok hid, hindex, rfl, deltaArguments_eq_ok ha⟩

/-- **The call of a delta is the one it belongs to.** -/
theorem resolve_follows (hfields : fieldsDelta index id name fragment = .ok d)
    (h : Follows s r) (hamong : Among s) :
    ∃ s', resolve index id name s = (.ok (r.owner d), s') ∧ Found s' r d (r.owner d) := by
  obtain ⟨hid, hindex, hname, -⟩ := fieldsDelta_eq_ok hfields
  unfold resolve
  rcases hid with ⟨k, htruthy, hkey, hid⟩ | ⟨hfalsy, hid⟩
  · have howner : r.owner d = .given k := by
      unfold Routing.owner
      rw [hid]
    rw [if_pos htruthy, hkey, hindex, howner]
    refine ⟨_, rfl, ?_⟩
    have hrouted : ∀ t : StreamState, t.index_to_tool_id = s.index_to_tool_id →
        t.generated = s.generated → Routed (route d.index (.given k) t) (r.add d) := by
      intro t hroutes hgenerated
      refine h.routed.add_route ?_ ?_
      · show t.index_to_tool_id.set d.index (.given k) = _
        rw [hroutes, howner]
      · refine hgenerated.trans (h.routed.generated.trans ?_)
        exact (if_neg fun hnew => by rw [hid] at hnew; cases hnew.1).symm
    unfold track
    by_cases htracked : ToolKey.given k ∈ s.tracked_tool_calls
    · obtain ⟨tool, hget⟩ := Dict.mem_iff_exists.mp htracked
      rw [if_pos htracked]
      exact h.found_old howner hget rfl rfl rfl (hrouted s rfl rfl)
    · rw [if_neg htracked, ← hname]
      refine h.found_new howner (Dict.get?_eq_none_iff.mpr htracked) ?_ rfl rfl rfl
        (hrouted _ rfl rfl)
      show (id.key.toOption.map ToolKey.given) = _
      rw [hkey]
      rfl
  · rw [if_neg (by simp [hfalsy]), hindex]
    cases hlatest : r.latest d.index with
    | some key =>
      obtain ⟨hrouted, howner⟩ := h.routed.add_latest hid hlatest
      have hget : s.tracked_tool_calls.get? key ≠ none := fun hnone =>
        r.own_ne_nil_of_latest hlatest (own_eq_nil (h.tracked key) hnone)
      obtain ⟨tool, hget⟩ := Option.ne_none_iff_exists'.mp hget
      refine ⟨s, ?_, howner ▸ h.found_old howner hget rfl rfl rfl hrouted⟩
      dsimp only [bind, Py.lift, Py.state]
      rw [h.routed.route, hlatest, howner]
      rfl
    | none =>
      have howner : r.owner d = .generated s.generated := by
        unfold Routing.owner
        rw [hid, hlatest, h.routed.generated]
        rfl
      have hnew : s.tracked_tool_calls.get? (.generated s.generated) = none := by
        obtain ⟨c, hagrees, -⟩ := hamong
        exact Dict.get?_eq_none_iff.mpr fun hmem => Nat.lt_irrefl _ (hagrees.fresh _ hmem)
      refine ⟨route d.index (.generated s.generated) { s.setTool (.generated s.generated)
        (newToolCall (.generated s.generated) name) with generated := s.generated + 1 }, ?_, ?_⟩
      · dsimp only [bind, Py.lift, Py.state]
        rw [h.routed.route, hlatest, howner]
        rfl
      · rw [howner, ← hname]
        refine h.found_new howner hnew rfl rfl rfl rfl (h.routed.add_route ?_ ?_)
        · rw [howner]
          rfl
        · show s.generated + 1 = if _ then _ else _
          rw [if_pos ⟨hid, hlatest⟩, h.routed.generated]

/-- **One delta of a tool call.** -/
theorem onFields_follows (hfields : fieldsDelta index id name fragment = .ok d)
    (h : FollowsAmong s r) :
    ∃ s', onFields index id name fragment s = (.ok (), s') ∧ FollowsAmong s' (r.add d) := by
  obtain ⟨hfollows, hamong⟩ := h
  obtain ⟨s₁, hrun₁, hfound⟩ := resolve_follows hfields hfollows hamong.1
  obtain ⟨hamong₁, hnamed₁⟩ := (resolve_spec index id name).returned hamong hrun₁
  obtain ⟨-, -, hname, hfragment⟩ := fieldsDelta_eq_ok hfields
  have hadded := hfound.startTool
  obtain ⟨hamong₂, hnamed₂⟩ := among_startTool d.name hamong₁ hnamed₁
  have hrun₂ : onFields index id name fragment s =
      onArguments (r.owner d) fragment (startTool (r.owner d) d.name s₁) := by
    rw [hname]
    exact Py.bind_ok hrun₁
  rw [hrun₂]
  unfold onArguments
  rcases hfragment with ⟨htruthy, rfl⟩ | ⟨hfalsy, hempty⟩
  · rw [if_pos htruthy]
    have hne : d.arguments ≠ "" := by simpa [Json.truthy] using htruthy
    have hlast : Among (addArguments (r.owner d) d.arguments _) ∧ NamedStarted _ :=
      among_addArguments d.arguments hamong₂ hnamed₂
    obtain ⟨c, hagrees, -⟩ := hamong₂
    exact ⟨_, rfl, hadded.addArguments hagrees hne, hlast⟩
  · rw [if_neg (by simp [hfalsy])]
    exact ⟨_, rfl, hadded.follows_of_empty hempty, hamong₂, hnamed₂⟩

theorem onToolCall_follows {tool_call : Json} (hread : toolDelta tool_call = .ok d)
    (h : FollowsAmong s r) :
    ∃ s', onToolCall tool_call s = (.ok (), s') ∧ FollowsAmong s' (r.add d) := by
  unfold toolDelta at hread
  obtain ⟨index, hindex, hread⟩ := bind_eq_ok.mp hread
  obtain ⟨id, hid, hread⟩ := bind_eq_ok.mp hread
  obtain ⟨function, hfunction, hread⟩ := bind_eq_ok.mp hread
  obtain ⟨name, hname, hread⟩ := bind_eq_ok.mp hread
  obtain ⟨fragment, hfragment, hread⟩ := bind_eq_ok.mp hread
  obtain ⟨s', hrun, hs'⟩ := onFields_follows hread h
  refine ⟨s', ?_, hs'⟩
  unfold onToolCall
  rw [Py.lift_bind hindex, Py.lift_bind hid, Py.lift_bind hfunction, Py.lift_bind hname,
    Py.lift_bind hfragment]
  exact hrun

/-- Events of no tool call may come between two deltas. -/
theorem Follows.append (events : List Event) (h : Follows s r) (hout : s'.out = s.out ++ events)
    (hevents : ∀ e ∈ events, e.other = true)
    (htracked : s'.tracked_tool_calls = s.tracked_tool_calls)
    (hroutes : s'.index_to_tool_id = s.index_to_tool_id) (hgenerated : s'.generated = s.generated)
    (hcurrent : s.current_block_index ≤ s'.current_block_index) : Follows s' r := by
  refine ⟨⟨hgenerated.trans h.routed.generated, fun index => ?_⟩,
    h.emitted.append hout htracked hcurrent fun e he => .inl (hevents e he),
    fun key => (h.tracked key).frame (by rw [htracked]) fun tool _ _ => ?_⟩
  · rw [hroutes]
    exact h.routed.route index
  · rw [hout, argumentsIn_append, argumentsIn_of_other hevents, String.append_empty]

theorem Follows.onContent (content : Json) (h : Follows s r) : Follows (s.onContent content) r := by
  unfold StreamState.onContent StreamState.openText
  split
  · split
    · exact h.append [.text_delta s.current_block_index content] rfl
        (by simp [Event.other]) rfl rfl rfl (Int.le_refl _)
    · refine h.append [.text_start s.current_block_index,
        .text_delta s.current_block_index content] ?_ (by simp [Event.other]) rfl rfl rfl
        (Int.le_refl _)
      show (s.out ++ _) ++ _ = _
      rw [List.append_assoc]
      rfl
  · exact h

theorem Follows.closeText (h : Follows s r) : Follows s.closeText r := by
  unfold StreamState.closeText
  split
  · exact h.append [.content_block_stop s.current_block_index] rfl
      (by simp [Event.other]) rfl rfl rfl (Int.le_of_lt (Int.lt_succ _))
  · exact h

/-- The other variables of the generator may change between two deltas. -/
theorem Follows.congr (h : Follows s r) (hout : s'.out = s.out)
    (htracked : s'.tracked_tool_calls = s.tracked_tool_calls)
    (hroutes : s'.index_to_tool_id = s.index_to_tool_id) (hgenerated : s'.generated = s.generated)
    (hcurrent : s'.current_block_index = s.current_block_index) : Follows s' r := by
  refine h.append [] ?_ (List.forall_mem_nil _) htracked hroutes hgenerated
    (Int.le_of_eq hcurrent.symm)
  rw [hout, List.append_nil]

theorem onUsage_follows {data : Json} (hread : checkUsage data = .ok ()) (h : Follows s r) :
    ∃ s', onUsage data s = (.ok (), s') ∧ Follows s' r := by
  unfold checkUsage at hread
  obtain ⟨usage, husage, hread⟩ := bind_eq_ok.mp hread
  unfold onUsage
  rw [Py.lift_bind husage]
  split at hread
  · rename_i htruthy
    obtain ⟨tokens, htokens, -⟩ := bind_eq_ok.mp hread
    -- `usage` has a `get`, so it is an object
    cases usage with
    | dict kvs =>
      rw [if_pos htruthy]
      exact ⟨_, rfl, h.congr rfl rfl rfl rfl rfl⟩
    | _ => cases htokens
  · rename_i hfalsy
    rw [if_neg hfalsy]
    exact ⟨s, rfl, h⟩

theorem onFinish_follows {finish_reason : Json} (hread : checkFinish finish_reason = .ok ())
    (h : Follows s r) : ∃ s', onFinish finish_reason s = (.ok (), s') ∧ Follows s' r := by
  unfold checkFinish at hread
  obtain ⟨k, hk, -⟩ := bind_eq_ok.mp hread
  unfold onFinish
  split
  · exact ⟨s, rfl, h⟩
  · rw [hk]
    exact ⟨_, rfl, h.congr rfl rfl rfl rfl rfl⟩

theorem onToolCalls_follows {tool_calls : Json} {entries : List Json} {deltas : List ToolDelta}
    (hentries : toolEntries tool_calls = .ok entries) (hread : entries.mapM toolDelta = .ok deltas)
    (h : FollowsBetween s r) :
    ∃ s', onToolCalls tool_calls s = (.ok (), s') ∧ Follows s' (deltas.foldl .add r) := by
  unfold toolEntries at hentries
  unfold onToolCalls
  split at hentries
  · rename_i htruthy
    rw [if_pos htruthy, hentries]
    have hstart : FollowsAmong s.closeText r := ⟨h.1.closeText, h.2.closeText⟩
    obtain ⟨s', hrun, hs'⟩ :=
      Py.forEach_follows
      (fun tool_call d _ _ (hd : toolDelta tool_call = .ok d) h => onToolCall_follows hd h) hread
      hstart
    exact ⟨s', hrun, hs'.1⟩
  · rename_i hfalsy
    cases hentries
    cases hread
    rw [if_neg hfalsy]
    exact ⟨s, rfl, h.1⟩

/-- **The object of one line.** -/
theorem onData_follows {data : Json} {deltas : List ToolDelta}
    (hread : dataDeltas data = .ok deltas) (h : FollowsBetween s r) :
    ∃ s', onData data s = (.ok (), s') ∧ FollowsBetween s' (deltas.foldl .add r) := by
  suffices hrun : ∃ s', onData data s = (.ok (), s') ∧ Follows s' (deltas.foldl .add r) by
    obtain ⟨s', hrun, hs'⟩ := hrun
    exact ⟨s', hrun, hs', (onData_spec data).returned h.2 hrun⟩
  unfold dataDeltas at hread
  obtain ⟨choices, hchoices, hread⟩ := bind_eq_ok.mp hread
  unfold onData
  rw [Py.lift_bind hchoices]
  split at hread
  · rename_i htruthy
    obtain ⟨choice, hchoice, hread⟩ := bind_eq_ok.mp hread
    obtain ⟨delta, hdelta, hread⟩ := bind_eq_ok.mp hread
    obtain ⟨finish_reason, hfinish, hread⟩ := bind_eq_ok.mp hread
    obtain ⟨message, hmessage, hread⟩ := bind_eq_ok.mp hread
    obtain ⟨⟨⟩, husage, hread⟩ := bind_eq_ok.mp hread
    obtain ⟨content, hcontent, hread⟩ := bind_eq_ok.mp hread
    obtain ⟨tool_calls, htool_calls, hread⟩ := bind_eq_ok.mp hread
    obtain ⟨entries, hentries, hread⟩ := bind_eq_ok.mp hread
    obtain ⟨deltas', hdeltas, hread⟩ := bind_eq_ok.mp hread
    obtain ⟨⟨⟩, hcheck, hread⟩ := bind_eq_ok.mp hread
    cases hread
    rw [if_pos htruthy, Py.lift_bind hchoice, Py.lift_bind hdelta, Py.lift_bind hfinish,
      Py.lift_bind hmessage]
    obtain ⟨s₁, hrun₁, hs₁⟩ := onUsage_follows husage h.1
    have hbetween₁ := (onUsage_spec data).returned h.2 hrun₁
    obtain ⟨s₂, hrun₂, hs₂⟩ := onToolCalls_follows hentries hdeltas
      (s := s₁.onContent content) ⟨hs₁.onContent content, hbetween₁.onContent content⟩
    obtain ⟨s₃, hrun₃, hs₃⟩ := onFinish_follows hcheck hs₂
    refine ⟨s₃, (Py.bind_ok hrun₁).trans ?_, hs₃⟩
    rw [Py.lift_bind hcontent]
    refine (Py.bind_ok (Py.update_apply _ s₁)).trans ?_
    rw [Py.lift_bind htool_calls]
    exact (Py.bind_ok hrun₂).trans hrun₃
  · rename_i hfalsy
    obtain ⟨⟨⟩, husage, hread⟩ := bind_eq_ok.mp hread
    cases hread
    rw [if_neg hfalsy]
    exact onUsage_follows husage h.1

theorem onChunk_follows {chunk : Chunk} {deltas : List ToolDelta}
    (hread : chunkDeltas chunk = .ok deltas) (h : FollowsBetween s r) :
    ∃ s', onChunk (.ok chunk) s = (.ok (), s') ∧ FollowsBetween s' (deltas.foldl .add r) := by
  unfold chunkDeltas at hread
  obtain ⟨data, hdata, hread⟩ := bind_eq_ok.mp hread
  obtain ⟨deltas', hdeltas, hread⟩ := bind_eq_ok.mp hread
  cases hread
  obtain ⟨s', hrun, hs'⟩ := Py.forEach_follows
    (fun data ds _ _ (hd : dataDeltas data = .ok ds) h => onData_follows hd h) hdeltas h
  refine ⟨s', ?_, ?_⟩
  · unfold onChunk
    rw [Py.lift_bind rfl, Py.lift_bind hdata]
    exact hrun
  · rw [List.foldl_flatten]
    exact hs'

theorem follows_start (model : String) : Follows (.start model) .start := by
  refine ⟨⟨rfl, fun index => rfl⟩, ⟨?_, ?_, ?_⟩, fun key => rfl⟩
  · intro index partial_json hmem
    rcases List.mem_singleton.mp hmem with heq
    cases heq
  · intro key tool hget
    cases hget
  · intro index id name hmem
    rcases List.mem_singleton.mp hmem with heq
    cases heq

/-- **The whole loop.** -/
theorem readStream_follows (model : String) {chunks : List Chunk} {deltas : List ToolDelta}
    (hread : streamDeltas chunks = .ok deltas) :
    FollowsBetween (readStream model (chunks.map .ok)) (deltas.foldl .add .start) := by
  unfold streamDeltas at hread
  obtain ⟨deltas', hdeltas, hread⟩ := bind_eq_ok.mp hread
  cases hread
  have hmap : (chunks.map Except.ok).mapM (fun chunk => chunk >>= chunkDeltas) = .ok deltas' := by
    rw [List.mapM_map]
    exact hdeltas
  have hstart : FollowsBetween (.start model) .start := ⟨follows_start model, between_start model⟩
  have hchunk : ∀ (chunk : Except PyErr Chunk) ds s r, chunk >>= chunkDeltas = .ok ds →
      FollowsBetween s r →
      ∃ s', onChunk chunk s = (.ok (), s') ∧ FollowsBetween s' (ds.foldl .add r) := by
    intro chunk ds s r hd h
    obtain ⟨chunk', rfl, hd⟩ := bind_eq_ok.mp hd
    exact onChunk_follows hd h
  obtain ⟨s', hrun, hs'⟩ := Py.forEach_follows hchunk hmap hstart
  unfold readStream
  rw [hrun, List.foldl_flatten]
  exact hs'

/-! ## The end of the stream -/

/-- With a block for every named call there is nothing to flush. -/
theorem NamedStarted.flush_eq (h : NamedStarted s) : s.flush = s := by
  have hkey : ∀ key, flushTool s key = s := by
    intro key
    unfold flushTool
    cases hget : s.tracked_tool_calls.get? key with
    | none => rfl
    | some tool =>
      refine if_neg fun hcond => ?_
      obtain ⟨hunstarted, hname⟩ : tool.started = false ∧ tool.name.truthy = true := by
        simpa using hcond
      rw [h key tool hget hname] at hunstarted
      cases hunstarted
  unfold flush
  generalize s.tracked_tool_calls.keys = keys
  induction keys with
  | nil => rfl
  | cons key keys ih => rw [List.foldl_cons, hkey, ih]

/-- Closing the blocks yields stops only. -/
theorem closeTools_out (s : StreamState) :
    ∃ events, s.closeTools.out = s.out ++ events ∧ ∀ e ∈ events, e.other = true := by
  unfold closeTools
  generalize s.tracked_tool_calls.values = tools
  induction tools generalizing s with
  | nil => exact ⟨[], (List.append_nil _).symm, List.forall_mem_nil _⟩
  | cons tool tools ih =>
    rw [List.foldl_cons]
    obtain ⟨events, hout, hevents⟩ := ih (closeTool s tool)
    rw [hout]
    unfold closeTool
    split
    · refine ⟨.content_block_stop tool.block_index :: events, ?_,
        List.forall_mem_cons.mpr ⟨rfl, hevents⟩⟩
      show (s.out ++ _) ++ _ = _
      rw [List.append_assoc]
      rfl
    · exact ⟨events, rfl, hevents⟩

theorem closeLastText_out (s : StreamState) :
    ∃ events, s.closeLastText.out = s.out ++ events ∧ ∀ e ∈ events, e.other = true := by
  unfold closeLastText
  split
  · exact ⟨[_], rfl, by simp [Event.other]⟩
  · exact ⟨[], (List.append_nil _).symm, List.forall_mem_nil _⟩

/-- What a stream of OpenAI chunks ends with belongs to no tool call. -/
theorem stream_out (model : String) {chunks : List (Except PyErr Chunk)}
    (hnamed : NamedStarted (readStream model chunks)) :
    ∃ events, openai_stream_to_anthropic_stream model chunks =
      (readStream model chunks).out ++ events ∧ ∀ e ∈ events, e.other = true := by
  unfold openai_stream_to_anthropic_stream
  rw [hnamed.flush_eq]
  obtain ⟨events₁, hout₁, hevents₁⟩ := closeLastText_out (readStream model chunks)
  obtain ⟨events₂, hout₂, hevents₂⟩ := closeTools_out (readStream model chunks).closeLastText
  dsimp only
  rw [hout₂, hout₁, List.append_assoc, List.append_assoc]
  refine ⟨_, rfl, fun e he => ?_⟩
  simp only [List.mem_append, List.mem_cons, List.not_mem_nil, or_false] at he
  rcases he with he | he | rfl | rfl
  · exact hevents₁ e he
  · exact hevents₂ e he
  · rfl
  · rfl

theorem blocksOf_append (key : ToolKey) {out events : List Event}
    (h : ∀ e ∈ events, e.other = true) : blocksOf key (out ++ events) = blocksOf key out := by
  have hnil : blocksOf key events = [] := by
    refine List.filterMap_eq_nil_iff.mpr fun e he => ?_
    cases e with
    | tool_start index id name => cases h _ he
    | _ => rfl
  unfold blocksOf at hnil ⊢
  rw [List.filterMap_append, hnil, List.append_nil]

/-- The block of a call is the one in its record. -/
theorem mem_blocksOf {tool : TrackedToolCall} (h : Follows s r)
    (hkey : s.tracked_tool_calls.get? key = some tool)
    (hstarted : tool.started = true) (index : ℤ) :
    index ∈ blocksOf key s.out ↔ index = tool.block_index := by
  have hid : ∀ key' tool', s.tracked_tool_calls.get? key' = some tool' →
      tool'.id.key? = some key' := fun key' tool' hget =>
    (tracked_of_get? (h.tracked key') hget).1.id
  unfold blocksOf
  rw [List.mem_filterMap]
  constructor
  · rintro ⟨e, he, hindex⟩
    cases e with
    | tool_start index' id name =>
      obtain ⟨key', tool', hget, hst, hix, rfl⟩ := h.emitted.starts index' id name he
      dsimp only at hindex
      split at hindex
      · rename_i heq
        rw [hid key' tool' hget] at heq
        cases heq
        cases hindex
        rw [hkey] at hget
        cases hget
        exact hix.symm
      · cases hindex
    | _ => cases hindex
  · rintro rfl
    obtain ⟨name, hmem⟩ := h.emitted.started key tool hkey hstarted
    exact ⟨_, hmem, if_pos (hid key tool hkey)⟩

/-- **What reaches the block of a tool call.** For every stream of OpenAI chunks and every tool call
whose name arrives, the arguments emitted in the call's block are the argument fragments received
for it exactly when these are in time. -/
theorem emittedArguments_eq_received_iff (model : String) {chunks : List Chunk}
    {deltas : List ToolDelta} (hread : streamDeltas chunks = .ok deltas) (key : ToolKey)
    (hname : Named (ownDeltas key deltas)) :
    emittedArguments key (openai_stream_to_anthropic_stream model (chunks.map .ok)) =
      receivedArguments key deltas ↔ FragmentsInTime (ownDeltas key deltas) := by
  obtain ⟨hfollows, -, -, -, hnamed⟩ := readStream_follows model hread
  obtain ⟨events, hout, hevents⟩ := stream_out model hnamed
  generalize readStream model (chunks.map .ok) = s at hfollows hout
  have htracked : Tracked s key (ownDeltas key deltas) := hfollows.tracked key
  have hget : s.tracked_tool_calls.get? key ≠ none := by
    intro hnone
    obtain ⟨d, hd, -⟩ := hname
    rw [own_eq_nil htracked hnone] at hd
    cases hd
  obtain ⟨tool, hkey⟩ := Option.ne_none_iff_exists'.mp hget
  obtain ⟨hmatches, -⟩ := tracked_of_get? htracked hkey
  have hrun := (Progress.run_named _).mpr hname
  have hemitted : emittedArguments key (openai_stream_to_anthropic_stream model (chunks.map .ok)) =
      (Progress.run (ownDeltas key deltas)).sent := by
    rw [← hmatches.sent hrun, hout, emittedArguments, argumentsIn_append,
      argumentsIn_of_other hevents, String.append_empty, blocksOf_append key hevents]
    exact argumentsIn_congr (mem_blocksOf hfollows hkey (hmatches.started.trans hrun)) s.out
  rw [hemitted]
  exact Progress.run_sent_eq_iff _

/-! ### Two streams -/

/-- A chunk with one delta of the tool call `call_1`. -/
def toolChunk (function : List (String × Json)) : Chunk :=
  .str ("data: ".toList ++ dumps .standard (.dict [("choices", .list [.dict [("delta", .dict
    [("tool_calls", .list [.dict [("index", .int 0), ("id", .str "call_1"),
      ("function", .dict function)]])])]])]))

/-- The name comes first. -/
def earlyName : List Chunk :=
  [toolChunk [("name", .str "f")], toolChunk [("arguments", .str "\x7b")],
    toolChunk [("arguments", .str "\x7d")]]

/-- The arguments come first. -/
def lateName : List Chunk :=
  [toolChunk [("arguments", .str "\x7b\x7d")], toolChunk [("name", .str "f")]]

/-- Arguments after the name arrive. -/
theorem earlyName_delivers :
    emittedArguments (.given (.str "call_1"))
        (openai_stream_to_anthropic_stream "m" (earlyName.map .ok)) =
      receivedArguments (.given (.str "call_1"))
        [⟨.num 0, some (.str "call_1"), .str "f", ""⟩,
          ⟨.num 0, some (.str "call_1"), .str "", "\x7b"⟩,
          ⟨.num 0, some (.str "call_1"), .str "", "\x7d"⟩] :=
  (emittedArguments_eq_received_iff "m" (by decide +kernel) _
    ⟨_, List.mem_cons_self, by decide⟩).mpr ((Progress.run_sent_eq_iff _).mp (by decide))

/-- **Arguments before the name are lost**: not every tool call gets what it was sent. -/
theorem lateName_loses_arguments :
    ¬ ∀ (model : String) (chunks : List Chunk) (deltas : List ToolDelta) (key : ToolKey),
      streamDeltas chunks = .ok deltas → Named (ownDeltas key deltas) →
      emittedArguments key (openai_stream_to_anthropic_stream model (chunks.map .ok)) =
        receivedArguments key deltas := by
  intro h
  have hlost := h "m" lateName
    [⟨.num 0, some (.str "call_1"), .str "", "\x7b\x7d"⟩,
      ⟨.num 0, some (.str "call_1"), .str "f", ""⟩]
    (.given (.str "call_1")) (by decide +kernel)
    ⟨_, List.mem_cons_of_mem _ List.mem_cons_self, by decide⟩
  revert hlost
  decide +kernel

end OpenLaunch.Anthropic
