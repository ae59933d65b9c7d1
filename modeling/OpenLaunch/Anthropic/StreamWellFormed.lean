import OpenLaunch.Anthropic.Stream
import OpenLaunch.Transition

/-! # The converted stream is well formed

A checker reads the events of a stream and keeps the blocks that are open; a stream is well formed
when the checker accepts the events between `message_start` and `message_delta` and no block is left
open. The blocks the checker has open are at every moment those of the generator's own records, also
where an exception interrupts it, so every stream it produces is well formed. -/

namespace OpenLaunch.Anthropic

open Python Transition StreamState

/-! ## Well-formed streams -/

/-- What a content block holds. -/
inductive BlockKind
  | text
  | tool
  deriving DecidableEq

/-- What a reader of the stream knows: the index of the next block, the open blocks, and whether a
`tool_use` block has been started. -/
structure Blocks where
  next : ℤ
  opened : List (ℤ × BlockKind)
  toolSeen : Bool

/-- Before the first block. -/
def Blocks.start : Blocks := ⟨0, [], false⟩

/-- The next block is opened. -/
def Blocks.push (c : Blocks) (kind : BlockKind) (toolSeen : Bool) : Blocks :=
  ⟨c.next + 1, (c.next, kind) :: c.opened, toolSeen⟩

/-- A block is closed. -/
def Blocks.pop (c : Blocks) (index : ℤ) : Blocks :=
  { c with opened := c.opened.filter fun b => b.1 ≠ index }

/-- **Reading one event.** Blocks are started at the indices `0, 1, 2, …`, a text block not after a
`tool_use` block; a delta has the type of the open block it names; only an open block is stopped. -/
def Blocks.step (c : Blocks) : Event → Option Blocks
  | .text_start index =>
    if index = c.next ∧ c.toolSeen = false then some (c.push .text false) else none
  | .tool_start index _ _ => if index = c.next then some (c.push .tool true) else none
  | .text_delta index _ => if (index, .text) ∈ c.opened then some c else none
  | .input_json_delta index _ => if (index, .tool) ∈ c.opened then some c else none
  | .content_block_stop index =>
    if index ∈ c.opened.map Prod.fst then some (c.pop index) else none
  | .message_start _ | .message_delta _ _ | .message_stop => none

/-- **A well-formed Anthropic stream.** -/
def WellFormed (events : List Event) : Prop :=
  ∃ model blocks stop_reason output_tokens final,
    events = .message_start model :: blocks ++
      [.message_delta stop_reason output_tokens, .message_stop] ∧
    exec Blocks.step .start blocks = some final ∧ final.opened = []

/-! ## The generator's records and the reader's -/

variable {s s' : StreamState} {c c' : Blocks} {key : ToolKey} {tool : TrackedToolCall}

/-- The reader of what has been yielded so far is at `c`. -/
def Read (s : StreamState) (c : Blocks) : Prop :=
  ∃ model blocks, s.out = .message_start model :: blocks ∧ exec Blocks.step .start blocks = some c

/-- The block of the tool call `key` is open, at `index`. -/
def OpenTool (s : StreamState) (key : ToolKey) (index : ℤ) : Prop :=
  ∃ tool, s.tracked_tool_calls.get? key = some tool ∧ tool.started = true ∧
    tool.stopped = false ∧ tool.block_index = index

/-- **The records of the generator agree with the reader's.** -/
structure Agrees (s : StreamState) (c : Blocks) : Prop where
  read : Read s c
  next : c.next = if s.text_block_open then s.current_block_index + 1 else s.current_block_index
  opened : ∀ index kind, (index, kind) ∈ c.opened ↔
    (kind = .text ∧ s.text_block_open = true ∧ index = s.current_block_index) ∨
      (kind = .tool ∧ ∃ key, OpenTool s key index)
  below : ∀ key tool, s.tracked_tool_calls.get? key = some tool → tool.started = true →
    tool.block_index < s.current_block_index
  distinct : ∀ key key' tool tool', s.tracked_tool_calls.get? key = some tool →
    s.tracked_tool_calls.get? key' = some tool' → tool.started = true → tool'.started = true →
    tool.block_index = tool'.block_index → key = key'
  stopped : ∀ key tool, s.tracked_tool_calls.get? key = some tool → tool.stopped = true →
    tool.started = true
  fresh : ∀ n, .generated n ∈ s.tracked_tool_calls → n < s.generated

/-- Nothing but text precedes the first tool call. -/
def Seen (s : StreamState) (c : Blocks) : Prop := c.toolSeen = true → s.has_tool_calls = true

/-- Every tracked call with a name has its block. -/
def NamedStarted (s : StreamState) : Prop :=
  ∀ key tool, s.tracked_tool_calls.get? key = some tool → tool.name.truthy = true →
    tool.started = true

theorem Read.emit {e : Event} (h : Read s c) (hout : s'.out = s.out ++ [e])
    (hstep : c.step e = some c') : Read s' c' := by
  obtain ⟨model, blocks, hblocks, hrun⟩ := h
  refine ⟨model, blocks ++ [e], by rw [hout, hblocks]; rfl, ?_⟩
  rw [exec_append, hrun]
  exact exec_cons_eq_some.mpr ⟨c', hstep, rfl⟩

theorem Read.congr (h : Read s c) (hout : s'.out = s.out) : Read s' c := by
  unfold Read
  rw [hout]
  exact h

/-- The reader does not depend on the other variables of the generator. -/
theorem Agrees.congr (h : Agrees s c) (hout : s'.out = s.out)
    (hcurrent : s'.current_block_index = s.current_block_index)
    (hopen : s'.text_block_open = s.text_block_open)
    (htracked : s'.tracked_tool_calls = s.tracked_tool_calls)
    (hgenerated : s.generated ≤ s'.generated) : Agrees s' c := by
  refine ⟨h.read.congr hout, ?_, ?_, ?_, ?_, ?_, ?_⟩
  · rw [hopen, hcurrent]
    exact h.next
  · unfold OpenTool
    rw [hopen, hcurrent, htracked]
    exact h.opened
  · rw [hcurrent, htracked]
    exact h.below
  · rw [htracked]
    exact h.distinct
  · rw [htracked]
    exact h.stopped
  · rw [htracked]
    exact fun n hn => (h.fresh n hn).trans_le hgenerated

/-! ## Text -/

/-- A text block is opened. -/
theorem Agrees.openText (h : Agrees s c) (hseen : Seen s c) (hnot : s.has_tool_calls = false) :
    ∃ c', Agrees s.openText c' ∧ Seen s.openText c' ∧ s.openText.text_block_open = true := by
  unfold StreamState.openText
  split
  · rename_i hopen
    exact ⟨c, h, hseen, hopen⟩
  · rename_i hopen
    have hclosed : s.text_block_open = false := by simpa using hopen
    have hnext : c.next = s.current_block_index := by rw [h.next, hclosed]; rfl
    have hunseen : c.toolSeen = false := by
      by_contra htool
      have := hseen (by simpa using htool)
      rw [hnot] at this
      cases this
    have hunseen' : ∀ t : StreamState, Seen t (c.push .text false) := fun t htool => by cases htool
    refine ⟨c.push .text false,
      ⟨h.read.emit rfl ?_, ?_, fun index kind => ?_, h.below, h.distinct, h.stopped, h.fresh⟩,
      hunseen' _, rfl⟩
    · simp [Blocks.step, hnext, hunseen]
    · simp [Blocks.push, emit, hnext]
    · have hold := h.opened index kind
      simp only [hclosed, Bool.false_eq_true, false_and, and_false, false_or] at hold
      simp only [Blocks.push, List.mem_cons, hnext, Prod.mk.injEq, hold, emit, true_and]
      exact or_congr and_comm Iff.rfl

/-- A delta that fits is read. -/
theorem Agrees.emit_delta {e : Event} (h : Agrees s c) (hstep : c.step e = some c) :
    Agrees (s.emit e) c :=
  ⟨h.read.emit rfl hstep, h.next, h.opened, h.below, h.distinct, h.stopped, h.fresh⟩

theorem openText_current (s : StreamState) :
    s.openText.current_block_index = s.current_block_index := by
  unfold StreamState.openText
  split <;> rfl

/-- Text content is put into an open text block. -/
theorem Agrees.onContent (content : Json) (h : Agrees s c) (hseen : Seen s c) :
    ∃ c', Agrees (s.onContent content) c' ∧ Seen (s.onContent content) c' := by
  unfold StreamState.onContent
  split
  · rename_i hcond
    have hnot : s.has_tool_calls = false := by simpa using (Bool.and_eq_true_iff.mp hcond).2
    obtain ⟨c', hagrees, hseen', hopen⟩ := h.openText hseen hnot
    have hmem : (s.current_block_index, BlockKind.text) ∈ c'.opened :=
      (hagrees.opened _ _).mpr (.inl ⟨rfl, hopen, (openText_current s).symm⟩)
    exact ⟨c', hagrees.emit_delta (by simp [Blocks.step, hmem]), hseen'⟩
  · exact ⟨c, h, hseen⟩

/-- The text block is closed. -/
theorem Agrees.stopText (h : Agrees s c) (hopen : s.text_block_open = true) :
    Read (s.emit (.content_block_stop s.current_block_index)) (c.pop s.current_block_index) ∧
      ∀ index kind, (index, kind) ∈ (c.pop s.current_block_index).opened ↔
        kind = .tool ∧ ∃ key, OpenTool s key index := by
  have hmem : (s.current_block_index, BlockKind.text) ∈ c.opened :=
    (h.opened _ _).mpr (.inl ⟨rfl, hopen, rfl⟩)
  refine ⟨h.read.emit rfl ?_, fun index kind => ?_⟩
  · rw [Blocks.step, if_pos (List.mem_map.mpr ⟨_, hmem, rfl⟩)]
  · simp only [Blocks.pop, List.mem_filter, decide_eq_true_eq, h.opened]
    constructor
    · rintro ⟨⟨-, -, rfl⟩ | htool, hne⟩
      · exact absurd rfl hne
      · exact htool
    · rintro ⟨hkind, key, tool, hkey, hstarted, hstopped, rfl⟩
      exact ⟨.inr ⟨hkind, key, tool, hkey, hstarted, hstopped, rfl⟩,
        Int.ne_of_lt (h.below key tool hkey hstarted)⟩

/-- Before the tool calls of a chunk the text block is closed. -/
theorem Agrees.closeText (h : Agrees s c) (hseen : Seen s c) :
    (∃ c', Agrees s.closeText c' ∧ Seen s.closeText c') ∧ s.closeText.text_block_open = false := by
  unfold StreamState.closeText
  split
  · rename_i hopen
    obtain ⟨hread, hopened⟩ := h.stopText hopen
    refine ⟨⟨c.pop s.current_block_index,
      ⟨hread, ?_, fun index kind => ?_, ?_, h.distinct, h.stopped, h.fresh⟩, hseen⟩, rfl⟩
    · rw [Blocks.pop, h.next, hopen]
      rfl
    · rw [hopened]
      exact ⟨.inr, fun h => h.resolve_left fun ⟨_, hfalse, _⟩ => by cases hfalse⟩
    · intro key tool hkey hstarted
      exact Int.lt_trans (h.below key tool hkey hstarted) (Int.lt_succ _)
  · rename_i hopen
    exact ⟨⟨c, h, hseen⟩, by simpa using hopen⟩

/-! ## Tool calls -/

/-- A record changes in nothing the reader sees: it is new and without a block, or it keeps its
block. -/
def SameBlock (s : StreamState) (key : ToolKey) (tool : TrackedToolCall) : Prop :=
  match s.tracked_tool_calls.get? key with
  | none => tool.started = false ∧ tool.stopped = false ∧ ∀ n, key = .generated n → n < s.generated
  | some old => tool.started = old.started ∧ tool.stopped = old.stopped ∧
      tool.block_index = old.block_index

theorem get?_setTool (s : StreamState) (key key' : ToolKey) (tool : TrackedToolCall) :
    (s.setTool key tool).tracked_tool_calls.get? key' =
      if key' = key then some tool else s.tracked_tool_calls.get? key' :=
  Dict.get?_set ..

/-- A record that keeps its block has one before and after. -/
theorem SameBlock.old {key' : ToolKey} {tool' : TrackedToolCall} (h : SameBlock s key tool)
    (hget : (s.setTool key tool).tracked_tool_calls.get? key' = some tool')
    (hstarted : tool'.started = true) : ∃ old, s.tracked_tool_calls.get? key' = some old ∧
      old.started = true ∧ old.stopped = tool'.stopped ∧ old.block_index = tool'.block_index := by
  rw [get?_setTool] at hget
  split at hget
  · rename_i heq
    subst heq
    cases hget
    unfold SameBlock at h
    cases hold : s.tracked_tool_calls.get? key' with
    | none =>
      rw [hold, hstarted] at h
      cases h.1
    | some old =>
      rw [hold] at h
      exact ⟨old, rfl, h.1 ▸ hstarted, h.2.1.symm, h.2.2.symm⟩
  · exact ⟨tool', hget, hstarted, rfl, rfl⟩

/-- The same blocks are open. -/
theorem SameBlock.openTool (h : SameBlock s key tool) (key' : ToolKey) (index : ℤ) :
    OpenTool (s.setTool key tool) key' index ↔ OpenTool s key' index := by
  constructor
  · rintro ⟨tool', hget, hstarted, hstopped, hindex⟩
    obtain ⟨old, hold, hst, hsp, hix⟩ := h.old hget hstarted
    exact ⟨old, hold, hst, hsp.trans hstopped, hix.trans hindex⟩
  · rintro ⟨old, hold, hstarted, hstopped, hindex⟩
    by_cases heq : key' = key
    · subst heq
      unfold SameBlock at h
      rw [hold] at h
      exact ⟨tool, by rw [get?_setTool, if_pos rfl], h.1.trans hstarted, h.2.1.trans hstopped,
        h.2.2.trans hindex⟩
    · exact ⟨old, by rw [get?_setTool, if_neg heq]; exact hold, hstarted, hstopped, hindex⟩

/-- A record that keeps its block may change. -/
theorem Agrees.setTool (h : Agrees s c) (hsame : SameBlock s key tool) :
    Agrees (s.setTool key tool) c := by
  refine ⟨h.read.congr rfl, h.next, fun index kind => ?_, fun key' tool' hget hstarted => ?_, ?_,
    fun key' tool' hget hstopped => ?_, fun n hn => ?_⟩
  · rw [h.opened]
    simp only [hsame.openTool]
    rfl
  · obtain ⟨old, hold, hst, -, hix⟩ := hsame.old hget hstarted
    rw [← hix]
    exact h.below key' old hold hst
  · intro key₁ key₂ tool₁ tool₂ hget₁ hget₂ hst₁ hst₂ heq
    obtain ⟨old₁, hold₁, hst₁, -, hix₁⟩ := hsame.old hget₁ hst₁
    obtain ⟨old₂, hold₂, hst₂, -, hix₂⟩ := hsame.old hget₂ hst₂
    exact h.distinct key₁ key₂ old₁ old₂ hold₁ hold₂ hst₁ hst₂ (by rw [hix₁, hix₂, heq])
  · rw [get?_setTool] at hget
    split at hget
    · cases hget
      unfold SameBlock at hsame
      cases hold : s.tracked_tool_calls.get? key with
      | none =>
        rw [hold] at hsame
        rw [hsame.2.1] at hstopped
        cases hstopped
      | some old =>
        rw [hold] at hsame
        rw [hsame.1]
        exact h.stopped key old hold (hsame.2.1 ▸ hstopped)
    · exact h.stopped key' tool' hget hstopped
  · rcases Dict.mem_set.mp hn with rfl | hn
    · unfold SameBlock at hsame
      cases hold : s.tracked_tool_calls.get? (.generated n) with
      | none =>
        rw [hold] at hsame
        exact hsame.2.2 n rfl
      | some old => exact h.fresh n (Dict.mem_iff_exists.mpr ⟨old, hold⟩)
    · exact h.fresh n hn

/-- The block of a call is started, while no text block is open. -/
theorem Agrees.startBlock (h : Agrees s c) (hclosed : s.text_block_open = false)
    {old : TrackedToolCall} (hkey : s.tracked_tool_calls.get? key = some old)
    (hunstarted : old.started = false) (hstopped : tool.stopped = false) :
    Agrees (s.startBlock key tool) (c.push .tool true) := by
  have hnext : c.next = s.current_block_index := by rw [h.next, hclosed]; rfl
  have hget : ∀ key', (s.startBlock key tool).tracked_tool_calls.get? key' =
      if key' = key then
        some { tool with block_index := s.current_block_index, started := true }
      else s.tracked_tool_calls.get? key' := fun key' => Dict.get?_set ..
  -- every block but the new one was there before, below the current index
  have hcases : ∀ key' tool', (s.startBlock key tool).tracked_tool_calls.get? key' = some tool' →
      tool'.started = true →
      (key' = key ∧ tool'.stopped = false ∧ tool'.block_index = s.current_block_index) ∨
        (key' ≠ key ∧ s.tracked_tool_calls.get? key' = some tool' ∧
          tool'.block_index < s.current_block_index) := by
    intro key' tool' hget' hstarted
    rw [hget] at hget'
    split at hget'
    · cases hget'
      exact .inl ⟨‹_›, hstopped, rfl⟩
    · exact .inr ⟨‹_›, hget', h.below key' tool' hget' hstarted⟩
  refine ⟨h.read.emit rfl ?_, ?_, fun index kind => ?_, fun key' tool' hget' hstarted => ?_, ?_,
    fun key' tool' hget' hsp => ?_, fun n hn => ?_⟩
  · rw [Blocks.step, if_pos hnext.symm]
  · show c.next + 1 = if s.text_block_open then _ else s.current_block_index + 1
    rw [hclosed, hnext]
    rfl
  · simp only [Blocks.push, List.mem_cons, hnext, Prod.mk.injEq, h.opened, hclosed,
      Bool.false_eq_true, false_and, and_false, false_or]
    constructor
    · rintro (⟨rfl, rfl⟩ | ⟨rfl, key', tool', hget', hst, hsp, hix⟩)
      · exact .inr ⟨rfl, key, { tool with block_index := s.current_block_index, started := true },
          by rw [hget, if_pos rfl], rfl, hstopped, rfl⟩
      · have hne : key' ≠ key := by
          rintro rfl
          rw [hkey] at hget'
          cases hget'
          rw [hunstarted] at hst
          cases hst
        exact .inr ⟨rfl, key', tool', by rw [hget, if_neg hne]; exact hget', hst, hsp, hix⟩
    · rintro (⟨-, hopen, -⟩ | ⟨rfl, key', tool', hget', hst, hsp, rfl⟩)
      · exact absurd (hclosed.symm.trans hopen) (by simp)
      · rcases hcases key' tool' hget' hst with ⟨rfl, -, hix⟩ | ⟨hne, hget', -⟩
        · exact .inl ⟨hix, rfl⟩
        · exact .inr ⟨rfl, key', tool', hget', hst, hsp, rfl⟩
  · show tool'.block_index < s.current_block_index + 1
    rcases hcases key' tool' hget' hstarted with ⟨-, -, hix⟩ | ⟨-, -, hlt⟩ <;> omega
  · intro key₁ key₂ tool₁ tool₂ hget₁ hget₂ hst₁ hst₂ heq
    rcases hcases key₁ tool₁ hget₁ hst₁ with ⟨rfl, -, hix₁⟩ | ⟨-, hget₁, hlt₁⟩ <;>
      rcases hcases key₂ tool₂ hget₂ hst₂ with ⟨rfl, -, hix₂⟩ | ⟨-, hget₂, hlt₂⟩
    · rfl
    · omega
    · omega
    · exact h.distinct key₁ key₂ tool₁ tool₂ hget₁ hget₂ hst₁ hst₂ heq
  · rw [hget] at hget'
    split at hget'
    · cases hget'
      rfl
    · exact h.stopped key' tool' hget' hsp
  · rcases Dict.mem_set.mp hn with rfl | hn
    · exact h.fresh n (Dict.mem_iff_exists.mpr ⟨old, hkey⟩)
    · exact h.fresh n hn

/-- The open block of a call is stopped. -/
theorem Agrees.stopBlock (h : Agrees s c) {old : TrackedToolCall}
    (hkey : s.tracked_tool_calls.get? key = some old) (hstarted : old.started = true)
    (hopen : old.stopped = false) (htool : tool.stopped = true) (hnew : tool.started = true)
    (hindex : tool.block_index = old.block_index) :
    Agrees ((s.setTool key tool).emit (.content_block_stop old.block_index))
      (c.pop old.block_index) := by
  have hget := fun key' => get?_setTool s key key' tool
  have hmem : (old.block_index, BlockKind.tool) ∈ c.opened :=
    (h.opened _ _).mpr (.inr ⟨rfl, key, old, hkey, hstarted, hopen, rfl⟩)
  -- what is started afterwards was started before, at the same index
  have hold : ∀ key' tool', (s.setTool key tool).tracked_tool_calls.get? key' = some tool' →
      tool'.started = true → ∃ old', s.tracked_tool_calls.get? key' = some old' ∧
        old'.started = true ∧ old'.block_index = tool'.block_index := by
    intro key' tool' hget' hst
    rw [hget] at hget'
    split at hget'
    · rename_i heq
      cases hget'
      exact ⟨old, heq ▸ hkey, hstarted, hindex.symm⟩
    · exact ⟨tool', hget', hst, rfl⟩
  refine ⟨h.read.emit rfl ?_, h.next, fun index kind => ?_, fun key' tool' hget' hst => ?_, ?_,
    fun key' tool' hget' hsp => ?_, fun n hn => ?_⟩
  · rw [Blocks.step, if_pos (List.mem_map.mpr ⟨_, hmem, rfl⟩)]
  · simp only [Blocks.pop, List.mem_filter, decide_eq_true_eq, h.opened]
    constructor
    · rintro ⟨htext | ⟨rfl, key', tool', hget', hst, hsp, rfl⟩, hne⟩
      · exact .inl htext
      · have hkey' : key' ≠ key := by
          rintro rfl
          rw [hkey] at hget'
          cases hget'
          exact hne rfl
        exact .inr ⟨rfl, key', tool', (hget key').trans (by rw [if_neg hkey']; exact hget'), hst,
          hsp, rfl⟩
    · rintro (⟨rfl, htext, rfl⟩ | ⟨rfl, key', tool', hget', hst, hsp, rfl⟩)
      · exact ⟨.inl ⟨rfl, htext, rfl⟩, Int.ne_of_gt (h.below key old hkey hstarted)⟩
      · have hget'' := (hget key').symm.trans hget'
        split at hget''
        · cases hget''
          rw [htool] at hsp
          cases hsp
        · rename_i hne
          refine ⟨.inr ⟨rfl, key', tool', hget'', hst, hsp, rfl⟩, fun heq => hne ?_⟩
          exact h.distinct key' key tool' old hget'' hkey hst hstarted heq
  · obtain ⟨old', hget', hst', hix⟩ := hold key' tool' hget' hst
    rw [← hix]
    exact h.below key' old' hget' hst'
  · intro key₁ key₂ tool₁ tool₂ hget₁ hget₂ hst₁ hst₂ heq
    obtain ⟨old₁, hold₁, hst₁, hix₁⟩ := hold key₁ tool₁ hget₁ hst₁
    obtain ⟨old₂, hold₂, hst₂, hix₂⟩ := hold key₂ tool₂ hget₂ hst₂
    exact h.distinct key₁ key₂ old₁ old₂ hold₁ hold₂ hst₁ hst₂ (by rw [hix₁, hix₂, heq])
  · have hget'' := (hget key').symm.trans hget'
    split at hget''
    · cases hget''
      exact hnew
    · exact h.stopped key' tool' hget'' hsp
  · rcases Dict.mem_set.mp hn with rfl | hn
    · exact h.fresh n (Dict.mem_iff_exists.mpr ⟨old, hkey⟩)
    · exact h.fresh n hn

/-! ## The loop -/

/-- Between two chunks: every tracked call with a name has its block. -/
def Between (s : StreamState) : Prop := ∃ c, Agrees s c ∧ Seen s c ∧ NamedStarted s

/-- Among the tool calls of a chunk: the text block is closed. -/
def Among (s : StreamState) : Prop := ∃ c, Agrees s c ∧ Seen s c ∧ s.text_block_open = false

/-- Every tracked call with a name has its block, apart perhaps from `key`. -/
def NamedStartedBut (key : ToolKey) (s : StreamState) : Prop :=
  ∀ key' tool, key' ≠ key → s.tracked_tool_calls.get? key' = some tool →
    tool.name.truthy = true → tool.started = true

/-- Where an exception may leave the generator. -/
def Interrupted (s : StreamState) : Prop :=
  ∃ c, Agrees s c ∧ (s.text_block_open = true → NamedStarted s)

theorem Between.interrupted (h : Between s) : Interrupted s :=
  h.imp fun _ h => ⟨h.1, fun _ => h.2.2⟩

theorem Among.interrupted (h : Among s) : Interrupted s :=
  h.imp fun _ h => ⟨h.1, fun hopen => by rw [h.2.2] at hopen; cases hopen⟩

/-- A new record that keeps its block. -/
theorem Among.setTool (h : Among s) (hsame : SameBlock s key tool) : Among (s.setTool key tool) :=
  h.imp fun _ h => ⟨h.1.setTool hsame, h.2⟩

/-- The other variables of the generator may change. -/
theorem Among.congr (h : Among s) (hout : s'.out = s.out)
    (hcurrent : s'.current_block_index = s.current_block_index)
    (hopen : s'.text_block_open = s.text_block_open)
    (htracked : s'.tracked_tool_calls = s.tracked_tool_calls)
    (hgenerated : s.generated ≤ s'.generated)
    (hhas : s.has_tool_calls = true → s'.has_tool_calls = true) : Among s' :=
  h.imp fun _ h => ⟨h.1.congr hout hcurrent hopen htracked hgenerated,
    fun hseen => hhas (h.2.1 hseen), hopen.trans h.2.2⟩

theorem NamedStartedBut.setTool (h : NamedStarted s) (key : ToolKey) (tool : TrackedToolCall) :
    NamedStartedBut key (s.setTool key tool) := by
  intro key' tool' hne hget hname
  rw [get?_setTool, if_neg hne] at hget
  exact h key' tool' hget hname

/-- A call is tracked under the id upstream gave. -/
theorem among_track {k : Json.Key} {id : ToolId} {name : Json} (h : Among s)
    (hnamed : NamedStarted s) :
    Among (track (.given k) id name s) ∧
      NamedStartedBut (.given k) (track (.given k) id name s) := by
  unfold track
  split
  · exact ⟨h, fun key' tool _ hget hname => hnamed key' tool hget hname⟩
  · rename_i hnew
    refine ⟨h.setTool ?_, .setTool hnamed _ _⟩
    unfold SameBlock
    rw [Dict.get?_eq_none_iff.mpr hnew]
    exact ⟨rfl, rfl, fun n hn => by cases hn⟩

/-- A call is tracked under a new id. -/
theorem among_generate {name : Json} (h : Among s) (hnamed : NamedStarted s) :
    Among { s.setTool (.generated s.generated) (newToolCall (.generated s.generated) name) with
        generated := s.generated + 1 } ∧
      NamedStartedBut (.generated s.generated)
        { s.setTool (.generated s.generated) (newToolCall (.generated s.generated) name) with
          generated := s.generated + 1 } := by
  have hnew : ToolKey.generated s.generated ∉ s.tracked_tool_calls := by
    obtain ⟨c, hagrees, -⟩ := h
    exact fun hmem => Nat.lt_irrefl _ (hagrees.fresh _ hmem)
  have hnext : Among { s with generated := s.generated + 1 } :=
    h.congr rfl rfl rfl rfl (Nat.le_succ _) fun h => h
  refine ⟨hnext.setTool ?_, .setTool hnamed _ _⟩
  unfold SameBlock
  rw [Dict.get?_eq_none_iff.mpr hnew]
  exact ⟨rfl, rfl, fun n hn => by cases hn; exact Nat.lt_succ_self _⟩

/-- Finding the call of a delta tracks at most that call. -/
theorem resolve_spec (index id name : Json) :
    Py.Spec (fun s => Among s ∧ NamedStarted s) (resolve index id name)
      (fun key s => Among s ∧ NamedStartedBut key s) Among := by
  unfold resolve
  split
  · refine (Py.Spec.lift (fun _ _ _ h => h) fun _ h => h.1).bind fun k => ?_
    refine (Py.Spec.update (Q := fun _ s => Among s ∧ NamedStartedBut (.given k) s)
      fun s h => among_track h.1 h.2).bind fun _ => ?_
    refine (Py.Spec.lift (fun _ _ _ h => h) fun _ h => h.1).bind fun i => ?_
    refine (Py.Spec.update (Q := fun _ s => Among s ∧ NamedStartedBut (.given k) s)
      fun s h => ⟨h.1.congr rfl rfl rfl rfl le_rfl fun h => h, h.2⟩).bind fun _ => ?_
    exact Py.Spec.pure fun _ h => h
  · refine (Py.Spec.lift (fun _ _ _ h => h) fun _ h => h.1).bind fun i => ?_
    refine (Py.Spec.state (Q := fun t s => t = s ∧ Among s ∧ NamedStarted s)
      fun s h => ⟨rfl, h⟩).bind fun t => ?_
    split
    · exact Py.Spec.pure fun s h =>
        ⟨h.2.1, fun key' tool _ hget hname => h.2.2 key' tool hget hname⟩
    · refine (Py.Spec.update (Q := fun _ s => Among s ∧ NamedStartedBut (.generated t.generated) s)
        ?_).bind fun _ => ?_
      · rintro s ⟨rfl, h, hnamed⟩
        exact among_generate h hnamed
      · refine (Py.Spec.update (Q := fun _ s => Among s ∧
          NamedStartedBut (.generated t.generated) s)
          fun s h => ⟨h.1.congr rfl rfl rfl rfl le_rfl fun h => h, h.2⟩).bind fun _ => ?_
        exact Py.Spec.pure fun _ h => h

/-- The name of a delta starts the block of its call. -/
theorem among_startTool (name : Json) (h : Among s) (hnamed : NamedStartedBut key s) :
    Among (startTool key name s) ∧ NamedStarted (startTool key name s) := by
  unfold startTool
  cases hkey : s.tracked_tool_calls.get? key with
  | none =>
    refine ⟨h, fun key' tool hget hname => hnamed key' tool ?_ hget hname⟩
    rintro rfl
    rw [hkey] at hget
    cases hget
  | some old =>
    dsimp only
    -- the record with the name of the delta keeps its block
    generalize htool : (if (name.truthy && !old.name.truthy) = true then { old with name := name }
      else old) = tool
    obtain ⟨hstarted, hstopped, hindex⟩ : tool.started = old.started ∧
        tool.stopped = old.stopped ∧ tool.block_index = old.block_index := by
      subst htool
      split <;> exact ⟨rfl, rfl, rfl⟩
    split
    · rename_i hcond
      have hunstarted : old.started = false := by
        simpa [hstarted] using (Bool.and_eq_true_iff.mp hcond).1
      refine ⟨?_, fun key' tool' hget hname => ?_⟩
      · obtain ⟨c, hagrees, hseen, hclosed⟩ := h
        have hnotstopped : tool.stopped = false := by
          rw [hstopped]
          by_contra hstop
          rw [hagrees.stopped key old hkey (by simpa using hstop)] at hunstarted
          cases hunstarted
        have hblock := hagrees.startBlock hclosed hkey hunstarted hnotstopped
        exact ⟨c.push .tool true, hblock.congr rfl rfl rfl rfl le_rfl, fun _ => rfl, hclosed⟩
      · have hget := (Dict.get?_set ..).symm.trans hget
        split at hget
        · cases hget
          rfl
        · exact hnamed key' tool' ‹_› hget hname
    · rename_i hcond
      have hsame : SameBlock s key tool := by
        unfold SameBlock
        rw [hkey]
        exact ⟨hstarted, hstopped, hindex⟩
      refine ⟨h.setTool hsame, fun key' tool' hget hname => ?_⟩
      rw [get?_setTool] at hget
      split at hget
      · cases hget
        by_contra hnot
        exact hcond (by simp [hname, hnot])
      · exact hnamed key' tool' ‹_› hget hname

/-- A change of a record that keeps its name and its start keeps the named calls started. -/
theorem NamedStarted.setTool (h : NamedStarted s) {old : TrackedToolCall}
    (hkey : s.tracked_tool_calls.get? key = some old) (hname : tool.name = old.name)
    (hstarted : tool.started = old.started) : NamedStarted (s.setTool key tool) := by
  intro key' tool' hget hnamed
  rw [get?_setTool] at hget
  split at hget
  · cases hget
    rw [hstarted]
    exact h key old hkey (hname ▸ hnamed)
  · exact h key' tool' hget hnamed

/-- An argument fragment goes to the open block of its call, or to none. -/
theorem among_addArguments (fragment : String) (h : Among s) (hnamed : NamedStarted s) :
    Among (addArguments key fragment s) ∧ NamedStarted (addArguments key fragment s) := by
  unfold addArguments
  cases hkey : s.tracked_tool_calls.get? key with
  | none => exact ⟨h, hnamed⟩
  | some old =>
    have hsame : ∀ t : StreamState, t.tracked_tool_calls = s.tracked_tool_calls →
        SameBlock t key { old with arguments := old.arguments ++ fragment } := by
      intro t ht
      unfold SameBlock
      rw [ht, hkey]
      exact ⟨rfl, rfl, rfl⟩
    dsimp only
    split
    · rename_i hcond
      obtain ⟨hstarted, hstopped⟩ : old.started = true ∧ old.stopped = false := by
        simpa using hcond
      obtain ⟨c, hagrees, hseen, hclosed⟩ := h
      have hmem : (old.block_index, BlockKind.tool) ∈ c.opened :=
        (hagrees.opened _ _).mpr (.inr ⟨rfl, key, old, hkey, hstarted, hstopped, rfl⟩)
      have hdelta := hagrees.emit_delta (e := .input_json_delta old.block_index fragment)
        (by rw [Blocks.step, if_pos hmem])
      split
      · exact ⟨⟨c.pop old.block_index, hdelta.stopBlock hkey hstarted hstopped rfl hstarted rfl,
          hseen, hclosed⟩, NamedStarted.setTool (s := s) hnamed hkey rfl rfl⟩
      · exact ⟨⟨c, hdelta.setTool (hsame _ rfl), hseen, hclosed⟩,
          NamedStarted.setTool (s := s) hnamed hkey rfl rfl⟩
    · exact ⟨h.setTool (hsame s rfl), hnamed.setTool hkey rfl rfl⟩

/-- **One delta of a tool call.** -/
theorem onToolCall_spec (tool_call : Json) :
    Py.Spec (fun s => Among s ∧ NamedStarted s) (onToolCall tool_call)
      (fun _ s => Among s ∧ NamedStarted s) Among := by
  unfold onToolCall onFields
  refine (Py.Spec.lift (fun _ _ _ h => h) fun _ h => h.1).bind fun index => ?_
  refine (Py.Spec.lift (fun _ _ _ h => h) fun _ h => h.1).bind fun id => ?_
  refine (Py.Spec.lift (fun _ _ _ h => h) fun _ h => h.1).bind fun function => ?_
  refine (Py.Spec.lift (fun _ _ _ h => h) fun _ h => h.1).bind fun name => ?_
  refine (Py.Spec.lift (fun _ _ _ h => h) fun _ h => h.1).bind fun fragment => ?_
  refine (resolve_spec index id name).bind fun key => ?_
  refine (Py.Spec.update (Q := fun _ s => Among s ∧ NamedStarted s)
    fun s h => among_startTool name h.1 h.2).bind fun _ => ?_
  unfold onArguments
  split
  · split
    · exact Py.Spec.update fun s h => among_addArguments _ h.1 h.2
    · exact Py.Spec.lift (fun _ _ hr => by cases hr) fun _ h => h.1
  · exact Py.Spec.pure fun _ h => h

/-- The other variables of the generator may change between two tool calls. -/
theorem Between.congr (h : Between s) (hout : s'.out = s.out)
    (hcurrent : s'.current_block_index = s.current_block_index)
    (hopen : s'.text_block_open = s.text_block_open)
    (htracked : s'.tracked_tool_calls = s.tracked_tool_calls)
    (hgenerated : s'.generated = s.generated) (hhas : s'.has_tool_calls = s.has_tool_calls) :
    Between s' := by
  obtain ⟨c, hagrees, hseen, hnamed⟩ := h
  refine ⟨c, hagrees.congr hout hcurrent hopen htracked hgenerated.ge, ?_, ?_⟩
  · unfold Seen
    rw [hhas]
    exact hseen
  · unfold NamedStarted
    rw [htracked]
    exact hnamed

theorem openText_tracked (s : StreamState) :
    s.openText.tracked_tool_calls = s.tracked_tool_calls := by
  unfold StreamState.openText
  split <;> rfl

theorem onContent_tracked (content : Json) (s : StreamState) :
    (onContent content s).tracked_tool_calls = s.tracked_tool_calls := by
  unfold StreamState.onContent
  split
  · exact openText_tracked s
  · rfl

theorem closeText_tracked (s : StreamState) :
    s.closeText.tracked_tool_calls = s.tracked_tool_calls := by
  unfold StreamState.closeText
  split <;> rfl

theorem Between.onContent (content : Json) (h : Between s) : Between (s.onContent content) := by
  obtain ⟨c, hagrees, hseen, hnamed⟩ := h
  obtain ⟨c', hagrees', hseen'⟩ := hagrees.onContent content hseen
  refine ⟨c', hagrees', hseen', ?_⟩
  unfold NamedStarted
  rw [onContent_tracked]
  exact hnamed

theorem Between.closeText (h : Between s) : Among s.closeText ∧ NamedStarted s.closeText := by
  obtain ⟨c, hagrees, hseen, hnamed⟩ := h
  obtain ⟨⟨c', hagrees', hseen'⟩, hclosed⟩ := hagrees.closeText hseen
  refine ⟨⟨c', hagrees', hseen', hclosed⟩, ?_⟩
  unfold NamedStarted
  rw [closeText_tracked]
  exact hnamed

/-- An expression between two chunks that may raise. -/
theorem between_lift {α : Type} (r : Except PyErr α) :
    Py.Spec Between (Py.lift r) (fun _ => Between) Interrupted :=
  Py.Spec.lift (fun _ _ _ h => h) fun _ h => h.interrupted

theorem onUsage_spec (data : Json) :
    Py.Spec Between (onUsage data) (fun _ => Between) Interrupted := by
  unfold onUsage
  refine (between_lift _).bind fun usage => ?_
  split
  · refine (Py.Spec.state (Q := fun _ => Between) fun _ h => h).bind fun t => ?_
    refine (between_lift _).bind fun input_tokens => ?_
    refine (Py.Spec.update (Q := fun _ => Between)
      fun s h => h.congr rfl rfl rfl rfl rfl rfl).bind fun _ => ?_
    refine (between_lift _).bind fun output_tokens => ?_
    exact Py.Spec.update fun s h => h.congr rfl rfl rfl rfl rfl rfl
  · exact Py.Spec.pure fun _ h => h

theorem onFinish_spec (finish_reason : Json) :
    Py.Spec Between (onFinish finish_reason) (fun _ => Between) Interrupted := by
  unfold onFinish
  split
  · exact Py.Spec.pure fun _ h => h
  · refine (between_lift _).bind fun k => ?_
    exact Py.Spec.update fun s h => h.congr rfl rfl rfl rfl rfl rfl

theorem onToolCalls_spec (tool_calls : Json) :
    Py.Spec Between (onToolCalls tool_calls) (fun _ => Between) Interrupted := by
  unfold onToolCalls
  split
  · refine (Py.Spec.update (Q := fun _ s => Among s ∧ NamedStarted s)
      fun s h => h.closeText).bind fun _ => ?_
    refine (Py.Spec.lift (fun _ _ _ h => h) fun _ h => h.1.interrupted).bind fun tool_calls => ?_
    have hloop : Py.Spec (fun s => Among s ∧ NamedStarted s) (Py.forEach onToolCall tool_calls)
        (fun _ s => Among s ∧ NamedStarted s) Among :=
      Py.Spec.forEach fun tool_call _ => onToolCall_spec tool_call
    refine hloop.consequence (fun _ h => h) (fun _ s h => ?_) fun _ h => h.interrupted
    obtain ⟨⟨c, hagrees, hseen, -⟩, hnamed⟩ := h
    exact ⟨c, hagrees, hseen, hnamed⟩
  · exact Py.Spec.pure fun _ h => h

/-- **The object of one line.** -/
theorem onData_spec (data : Json) :
    Py.Spec Between (onData data) (fun _ => Between) Interrupted := by
  unfold onData
  refine (between_lift _).bind fun choices => ?_
  split
  · refine (between_lift _).bind fun choice => ?_
    refine (between_lift _).bind fun delta => ?_
    refine (between_lift _).bind fun finish_reason => ?_
    refine (between_lift _).bind fun message => ?_
    refine (onUsage_spec data).bind fun _ => ?_
    refine (between_lift _).bind fun content => ?_
    refine (Py.Spec.update (Q := fun _ => Between) fun s h => h.onContent content).bind fun _ => ?_
    refine (between_lift _).bind fun tool_calls => ?_
    exact (onToolCalls_spec tool_calls).bind fun _ => onFinish_spec finish_reason
  · exact onUsage_spec data

theorem onChunk_spec (chunk : Except PyErr Chunk) :
    Py.Spec Between (onChunk chunk) (fun _ => Between) Interrupted := by
  unfold onChunk
  refine (between_lift _).bind fun chunk => ?_
  refine (between_lift _).bind fun data => ?_
  exact Py.Spec.forEach fun data _ => onData_spec data

theorem between_start (model : String) : Between (.start model) := by
  have hnone : ∀ key, (StreamState.start model).tracked_tool_calls.get? key = none := fun _ => rfl
  refine ⟨.start, ⟨⟨model, [], rfl, rfl⟩, rfl, fun index kind => ?_, ?_, ?_, ?_, ?_⟩, ?_, ?_⟩
  · constructor
    · intro hmem
      cases hmem
    · rintro (⟨-, hopen, -⟩ | ⟨-, key, tool, hget, -⟩)
      · cases hopen
      · rw [hnone] at hget
        cases hget
  · intro key tool hget
    rw [hnone] at hget
    cases hget
  · intro key key' tool tool' hget
    rw [hnone] at hget
    cases hget
  · intro key tool hget
    rw [hnone] at hget
    cases hget
  · intro n hn
    exact absurd hn (Dict.get?_eq_none_iff.mp (hnone _))
  · intro hseen
    cases hseen
  · intro key tool hget
    rw [hnone] at hget
    cases hget

/-- The loop ends in a state in which an exception may leave it, whether one did or not. -/
theorem readStream_interrupted (model : String) (chunks : List (Except PyErr Chunk)) :
    Interrupted (readStream model chunks) :=
  (Py.Spec.forEach fun chunk _ => onChunk_spec chunk).final (fun _ _ h => h.interrupted)
    (fun _ h => h) (between_start model)

/-! ## The end of the stream -/

theorem flushTool_interrupted (key : ToolKey) (h : Interrupted s) :
    Interrupted (s.flushTool key) := by
  unfold flushTool
  cases hkey : s.tracked_tool_calls.get? key with
  | none => exact h
  | some tool =>
    dsimp only
    split
    · rename_i hcond
      obtain ⟨c, hagrees, hnamed⟩ := h
      obtain ⟨hunstarted, hname⟩ : tool.started = false ∧ tool.name.truthy = true := by
        simpa using hcond
      have hclosed : s.text_block_open = false := by
        by_contra hopen
        rw [hnamed (by simpa using hopen) key tool hkey hname] at hunstarted
        cases hunstarted
      have hnotstopped : tool.stopped = false := by
        by_contra hstop
        rw [hagrees.stopped key tool hkey (by simpa using hstop)] at hunstarted
        cases hunstarted
      have hblock := hagrees.startBlock hclosed hkey hunstarted hnotstopped
      have hstill : (s.startBlock key tool).text_block_open = false := hclosed
      have hopen : OpenTool (s.startBlock key tool) key s.current_block_index :=
        ⟨_, Dict.get?_set_self .., rfl, hnotstopped, rfl⟩
      split
      · refine ⟨_, hblock.emit_delta ?_, fun hopen => absurd (hclosed.symm.trans hopen) (by simp)⟩
        rw [Blocks.step, if_pos ((hblock.opened _ _).mpr (.inr ⟨rfl, key, hopen⟩))]
      · exact ⟨_, hblock, fun hopen => absurd (hstill.symm.trans hopen) (by simp)⟩
    · exact h

theorem flush_interrupted (h : Interrupted s) : Interrupted s.flush := by
  unfold flush
  generalize s.tracked_tool_calls.keys = keys
  induction keys generalizing s with
  | nil => exact h
  | cons key keys ih => exact ih (flushTool_interrupted key h)

/-- The text block being closed, the open blocks are those of the tool calls. -/
theorem closeLastText_read (h : Agrees s c) : ∃ c', Read s.closeLastText c' ∧
    ∀ index kind, (index, kind) ∈ c'.opened ↔ kind = .tool ∧ ∃ key, OpenTool s key index := by
  unfold closeLastText
  split
  · rename_i hopen
    exact ⟨_, h.stopText hopen⟩
  · rename_i hopen
    refine ⟨c, h.read, fun index kind => ?_⟩
    rw [h.opened]
    simp [hopen]

theorem closeLastText_tracked (s : StreamState) :
    s.closeLastText.tracked_tool_calls = s.tracked_tool_calls := by
  unfold closeLastText
  split <;> rfl

/-- Closing the blocks of a list of calls with distinct indices leaves the blocks of the others. -/
theorem closeTool_foldl {tools : List TrackedToolCall} (hread : Read s c)
    (hmem : ∀ tool ∈ tools, tool.started = true → tool.stopped = false →
      tool.block_index ∈ c.opened.map Prod.fst)
    (hdistinct : tools.Pairwise fun tool tool' => tool.started = true → tool'.started = true →
      tool.block_index ≠ tool'.block_index) :
    ∃ c', Read (tools.foldl closeTool s) c' ∧
      ∀ b, b ∈ c'.opened ↔ b ∈ c.opened ∧ ∀ tool ∈ tools, tool.started = true →
        tool.stopped = false → b.1 ≠ tool.block_index := by
  induction tools generalizing s c with
  | nil => exact ⟨c, hread, fun b => by simp⟩
  | cons tool tools ih =>
    obtain ⟨hne, hdistinct⟩ := List.pairwise_cons.mp hdistinct
    rw [List.foldl_cons]
    by_cases hopen : tool.started = true ∧ tool.stopped = false
    · obtain ⟨hstarted, hstopped⟩ := hopen
      have hclose : closeTool s tool = s.emit (.content_block_stop tool.block_index) := by
        rw [closeTool, if_pos (by simp [hstarted, hstopped])]
      have hthis := hmem tool List.mem_cons_self hstarted hstopped
      have hread' : Read (closeTool s tool) (c.pop tool.block_index) := by
        rw [hclose]
        exact hread.emit rfl (by rw [Blocks.step, if_pos hthis])
      have hmem' : ∀ tool' ∈ tools, tool'.started = true → tool'.stopped = false →
          tool'.block_index ∈ (c.pop tool.block_index).opened.map Prod.fst := by
        intro tool' htool' hst hsp
        obtain ⟨b, hb, hindex⟩ :=
          List.mem_map.mp (hmem tool' (List.mem_cons_of_mem _ htool') hst hsp)
        refine List.mem_map.mpr ⟨b, List.mem_filter.mpr ⟨hb, ?_⟩, hindex⟩
        rw [decide_eq_true_eq, hindex]
        exact (hne tool' htool' hstarted hst).symm
      obtain ⟨c', hread'', hopened⟩ := ih hread' hmem' hdistinct
      refine ⟨c', hread'', fun b => ?_⟩
      rw [hopened]
      simp only [Blocks.pop, List.mem_filter, decide_eq_true_eq, List.forall_mem_cons]
      exact ⟨fun ⟨⟨hb, hbne⟩, hrest⟩ => ⟨hb, fun _ _ => hbne, hrest⟩,
        fun ⟨hb, hbne, hrest⟩ => ⟨⟨hb, hbne hstarted hstopped⟩, hrest⟩⟩
    · have hclose : closeTool s tool = s := by
        rw [closeTool, if_neg fun hcond => hopen (by simpa using hcond)]
      rw [hclose]
      obtain ⟨c', hread', hopened⟩ :=
        ih hread (fun tool' htool' => hmem tool' (List.mem_cons_of_mem _ htool')) hdistinct
      refine ⟨c', hread', fun b => ?_⟩
      rw [hopened, List.forall_mem_cons]
      exact ⟨fun ⟨hb, hrest⟩ => ⟨hb, fun hst hsp => absurd ⟨hst, hsp⟩ hopen, hrest⟩,
        fun ⟨hb, _, hrest⟩ => ⟨hb, hrest⟩⟩

/-- The tracked calls have their blocks at distinct indices. -/
theorem Agrees.pairwise_values (h : Agrees s c) :
    s.tracked_tool_calls.values.Pairwise fun tool tool' => tool.started = true →
      tool'.started = true → tool.block_index ≠ tool'.block_index := by
  rw [Dict.values, List.pairwise_map]
  have hkeys : s.tracked_tool_calls.entries.Pairwise fun e e' => e.1 ≠ e'.1 :=
    List.pairwise_map.mp s.tracked_tool_calls.nodup
  refine hkeys.imp_of_mem fun {e e'} he he' hne hst hst' heq => hne ?_
  exact h.distinct e.1 e'.1 e.2 e'.2 (Dict.mem_entries_iff.mp he) (Dict.mem_entries_iff.mp he') hst
    hst' heq

/-- Every block that is still open is closed at the end. -/
theorem closeTools_read (h : Agrees s c) :
    ∃ c', Read s.closeLastText.closeTools c' ∧ c'.opened = [] := by
  obtain ⟨c₁, hread, hopened⟩ := closeLastText_read h
  have hmem : ∀ tool ∈ s.tracked_tool_calls.values, tool.started = true → tool.stopped = false →
      tool.block_index ∈ c₁.opened.map Prod.fst := by
    intro tool htool hstarted hstopped
    obtain ⟨e, he, rfl⟩ := List.mem_map.mp htool
    refine List.mem_map.mpr ⟨(e.2.block_index, .tool), (hopened _ _).mpr ⟨rfl, e.1, e.2, ?_⟩, rfl⟩
    exact ⟨Dict.mem_entries_iff.mp he, hstarted, hstopped, rfl⟩
  obtain ⟨c', hread', hclosed⟩ := closeTool_foldl hread hmem h.pairwise_values
  refine ⟨c', ?_, List.eq_nil_iff_forall_not_mem.mpr fun b hb => ?_⟩
  · unfold closeTools
    rw [closeLastText_tracked]
    exact hread'
  · obtain ⟨hb₁, hnot⟩ := (hclosed b).mp hb
    obtain ⟨-, key, tool, hget, hstarted, hstopped, hindex⟩ := (hopened b.1 b.2).mp hb₁
    have htool : tool ∈ s.tracked_tool_calls.values :=
      List.mem_map.mpr ⟨(key, tool), Dict.mem_entries_iff.mpr hget, rfl⟩
    exact hnot tool htool hstarted hstopped hindex.symm

/-- **Every converted stream is well formed**, whatever upstream yields and wherever it raises. -/
theorem openai_stream_to_anthropic_stream_wellFormed (model : String)
    (chunks : List (Except PyErr Chunk)) :
    WellFormed (openai_stream_to_anthropic_stream model chunks) := by
  obtain ⟨c, hagrees, -⟩ := flush_interrupted (readStream_interrupted model chunks)
  obtain ⟨final, ⟨model', blocks, hout, hrun⟩, hclosed⟩ := closeTools_read hagrees
  unfold openai_stream_to_anthropic_stream
  dsimp only
  rw [hout]
  exact ⟨model', blocks, _, _, final, rfl, hrun, hclosed⟩

end OpenLaunch.Anthropic
