import OpenLaunch.Replay.Output
import Mathlib.Data.List.Flatten
import Mathlib.Data.List.Perm.Subperm

/-! # Rounds of stored output

Stored output comes in rounds: the items of one answer of the model, then the results of the calls
among them. A round without calls has no result, so it is flushed only with the next round that has
one. The rounds that are flushed together form a group, and each group becomes one assistant message
followed by the results of its last round.

The rounds may also lack results: then the messages are those of the groups that are formed without
these results, with the calls that lack them taken away at the end. -/

namespace OpenLaunch.Replay

open Python

/-! ## Rounds and groups -/

/-- Whether an item is the result of a tool. -/
def Item.isOutput : Item → Bool
  | .function_call_output _ => true
  | _ => false

/-- The tool call of an item. -/
def Item.calls : Item → List ToolCall
  | .function_call call_id name arguments => [functionCall call_id name arguments]
  | _ => []

/-- The id of a result, as its tool message has it. -/
def ToolOutput.id (result : ToolOutput) : Option String := some (result.call_id.getD "")

/-- The items of one answer of the model, and results of calls among them. -/
structure Round where
  body : List Item
  outputs : List ToolOutput

namespace Round

/-- The round as it is stored. -/
def items (r : Round) : List Item := r.body ++ r.outputs.map Item.function_call_output

/-- The calls of the round. -/
def calls (r : Round) : List ToolCall := r.body.flatMap Item.calls

end Round

section Groups

variable (opts : Options) (rounds : List Round)

/-- The stored output of some rounds. -/
def itemsOf : List Item := rounds.flatMap Round.items

/-- The calls of some rounds. -/
def callsOf : List ToolCall := rounds.flatMap Round.calls

/-- The tool messages for the results of some rounds. -/
def resultsOf : List ChatMessage :=
  (rounds.flatMap Round.outputs).map (toolMessage opts.conv)

/-- What some items add to the pending lists. -/
def pendingOf (items : List Item) : Pending :=
  items.foldr (fun item p => itemPending opts item ++ p) .empty

/-- What the items of some rounds add. -/
def roundsPending : Pending := pendingOf opts (rounds.flatMap Round.body)

/-- The pieces of content of some rounds: every text that is not empty, in order. -/
def textsOf : List String := (roundsPending opts rounds).content

/-- The groups of rounds that are flushed together, some rounds without results being pending. -/
def groupsFrom (carried : List Round) : List Round → List (List Round)
  | [] => if carried = [] then [] else [carried]
  | r :: rounds =>
    if r.outputs = [] then groupsFrom (carried ++ [r]) rounds
    else (carried ++ [r]) :: groupsFrom [] rounds

/-- The messages of a group before they are reconciled. -/
def groupMessages : List ChatMessage :=
  flush_pending (roundsPending opts rounds) ++ resultsOf opts rounds

end Groups

/-! ## The loop over rounds -/

namespace Pending

theorem ext' {p q : Pending} (hcalls : p.tool_calls = q.tool_calls)
    (hcontent : p.content = q.content) (hreasoning : p.reasoning = q.reasoning)
    (hdetails : p.reasoning_details = q.reasoning_details) : p = q := by
  cases p
  cases q
  simp_all

@[simp] theorem tool_calls_append (p q : Pending) :
    (p ++ q).tool_calls = p.tool_calls ++ q.tool_calls := rfl

@[simp] theorem content_append (p q : Pending) : (p ++ q).content = p.content ++ q.content := rfl

@[simp] theorem reasoning_append (p q : Pending) :
    (p ++ q).reasoning = p.reasoning ++ q.reasoning := rfl

@[simp] theorem reasoning_details_append (p q : Pending) :
    (p ++ q).reasoning_details = p.reasoning_details ++ q.reasoning_details := rfl

@[simp] theorem empty_append (p : Pending) : Pending.empty ++ p = p := rfl

@[simp] theorem append_empty (p : Pending) : p ++ Pending.empty = p := by
  apply ext' <;> simp [empty]

theorem append_assoc (p q r : Pending) : p ++ q ++ r = p ++ (q ++ r) := by
  apply ext' <;> simp

end Pending

section Loop

variable (opts : Options)

theorem pendingOf_append (items items' : List Item) :
    pendingOf opts (items ++ items') = pendingOf opts items ++ pendingOf opts items' := by
  induction items with
  | nil => rfl
  | cons item items ih =>
    simp only [pendingOf, List.cons_append, List.foldr_cons] at ih ⊢
    rw [ih, Pending.append_assoc]

theorem roundsPending_append (rounds rounds' : List Round) :
    roundsPending opts (rounds ++ rounds') =
      roundsPending opts rounds ++ roundsPending opts rounds' := by
  rw [roundsPending, List.flatMap_append, pendingOf_append]
  rfl

/-- Items other than results are collected. -/
theorem foldl_body {body : List Item} (hbody : ∀ item ∈ body, item.isOutput = false)
    (messages : List ChatMessage) (p : Pending) :
    body.foldl (convertItem opts) ⟨messages, p⟩ = ⟨messages, p ++ pendingOf opts body⟩ := by
  induction body generalizing p with
  | nil => simp [pendingOf]
  | cons item body ih =>
    rw [List.forall_mem_cons] at hbody
    have hstep : convertItem opts ⟨messages, p⟩ item = ⟨messages, p ++ itemPending opts item⟩ := by
      cases item with
      | function_call_output result => simp [Item.isOutput] at hbody
      | _ => rfl
    rw [List.foldl_cons, hstep, ih hbody.2, Pending.append_assoc]
    rfl

/-- When nothing is pending, results become tool messages. -/
theorem foldl_outputs_empty (outputs : List ToolOutput) (messages : List ChatMessage) :
    (outputs.map Item.function_call_output).foldl (convertItem opts) ⟨messages, .empty⟩ =
      ⟨messages ++ outputs.map (toolMessage opts.conv), .empty⟩ := by
  induction outputs generalizing messages with
  | nil => simp
  | cons result outputs ih =>
    rw [List.map_cons, List.foldl_cons]
    simp only [convertItem]
    rw [ih]
    simp [flush_pending, Pending.isEmpty, Pending.empty]

/-- The first result flushes what is pending. -/
theorem foldl_outputs {outputs : List ToolOutput} (houtputs : outputs ≠ [])
    (messages : List ChatMessage) (p : Pending) :
    (outputs.map Item.function_call_output).foldl (convertItem opts) ⟨messages, p⟩ =
      ⟨messages ++ (flush_pending p ++ outputs.map (toolMessage opts.conv)), .empty⟩ := by
  obtain ⟨result, outputs, rfl⟩ := List.exists_cons_of_ne_nil houtputs
  rw [List.map_cons, List.foldl_cons]
  simp only [convertItem]
  rw [foldl_outputs_empty]
  simp

/-- **The loop makes the messages group by group.** The invariant: what is pending is what the
rounds since the last result have added. -/
theorem foldl_rounds {rounds : List Round}
    (hbody : ∀ r ∈ rounds, ∀ item ∈ r.body, item.isOutput = false) {carried : List Round}
    (hcarried : ∀ r ∈ carried, r.outputs = []) (messages : List ChatMessage) :
    let s := (itemsOf rounds).foldl (convertItem opts) ⟨messages, roundsPending opts carried⟩
    s.messages ++ flush_pending s.pending =
      messages ++ (groupsFrom carried rounds).flatMap (groupMessages opts) := by
  induction rounds generalizing carried messages with
  | nil =>
    have hresults : carried.flatMap Round.outputs = [] := by simpa using hcarried
    by_cases hnone : carried = []
    · simp [groupsFrom, itemsOf, hnone, roundsPending, pendingOf, flush_pending, Pending.isEmpty,
        Pending.empty]
    · simp [groupsFrom, itemsOf, hnone, groupMessages, resultsOf, hresults]
  | cons r rounds ih =>
    rw [List.forall_mem_cons] at hbody
    have hr : roundsPending opts carried ++ pendingOf opts r.body =
        roundsPending opts (carried ++ [r]) := by
      rw [roundsPending_append]
      simp [roundsPending]
    simp only [itemsOf, List.flatMap_cons, Round.items, List.foldl_append] at ih ⊢
    rw [foldl_body opts hbody.1, hr, groupsFrom]
    by_cases hout : r.outputs = []
    · rw [hout, if_pos rfl]
      exact ih hbody.2 (by simpa [or_imp, forall_and, hout] using hcarried) messages
    · rw [foldl_outputs opts hout, if_neg hout]
      have hrest := @ih hbody.2 [] (by simp)
        (messages ++ (flush_pending (roundsPending opts (carried ++ [r])) ++
          r.outputs.map (toolMessage opts.conv)))
      have hresults : resultsOf opts (carried ++ [r]) = r.outputs.map (toolMessage opts.conv) := by
        have : carried.flatMap Round.outputs = [] := by simpa using hcarried
        simp [resultsOf, this]
      simp only [groupMessages, List.flatMap_cons, hresults, ← List.append_assoc] at hrest ⊢
      exact hrest

theorem convertItems_eq {rounds : List Round}
    (hbody : ∀ r ∈ rounds, ∀ item ∈ r.body, item.isOutput = false) :
    convertItems opts (itemsOf rounds) =
      (groupsFrom [] rounds).flatMap (groupMessages opts) := by
  have h := @foldl_rounds opts rounds hbody [] (by simp) []
  rw [List.nil_append] at h
  exact h

end Loop

/-! ### The groups -/

theorem flatten_groupsFrom (carried rounds : List Round) :
    (groupsFrom carried rounds).flatten = carried ++ rounds := by
  induction rounds generalizing carried with
  | nil => by_cases h : carried = [] <;> simp [groupsFrom, h]
  | cons r rounds ih => by_cases h : r.outputs = [] <;> simp [groupsFrom, h, ih]

/-- Every group but the last has results. -/
theorem outputs_of_mem_dropLast {carried rounds g : List Round}
    (h : g ∈ (groupsFrom carried rounds).dropLast) : g.flatMap Round.outputs ≠ [] := by
  induction rounds generalizing carried with
  | nil => by_cases hnone : carried = [] <;> simp [groupsFrom, hnone] at h
  | cons r rounds ih =>
    by_cases hout : r.outputs = []
    · rw [groupsFrom, if_pos hout] at h
      exact ih h
    · rw [groupsFrom, if_neg hout] at h
      by_cases hnil : groupsFrom [] rounds = []
      · simp [hnil] at h
      · rw [List.dropLast_cons_of_ne_nil hnil, List.mem_cons] at h
        rcases h with rfl | h
        · simp [hout]
        · exact ih h

/-! ### Calls and results of the messages -/

section Ids

variable {opts : Options}

@[simp] theorem roundsPending_tool_calls (rounds : List Round) :
    (roundsPending opts rounds).tool_calls = callsOf rounds := by
  have hitem (item : Item) : (itemPending opts item).tool_calls = item.calls := by
    cases item with
    | reasoning summary content details start_tag end_tag =>
      simp only [itemPending, reasoningPending, Item.calls]
      rw [apply_ite Pending.tool_calls]
      exact ite_self []
    | _ => rfl
  have hitems (items : List Item) :
      (pendingOf opts items).tool_calls = items.flatMap Item.calls := by
    induction items with
    | nil => rfl
    | cons item items ih =>
      simp only [pendingOf, List.foldr_cons, Pending.tool_calls_append] at ih ⊢
      rw [ih, hitem, List.flatMap_cons]
  rw [roundsPending, hitems, callsOf, List.flatMap_assoc]
  rfl

@[simp] theorem issued_assistantMessage (p : Pending) :
    (assistantMessage p).issued = p.tool_calls := by
  by_cases h : p.tool_calls = [] <;>
    simp [assistantMessage, ChatMessage.issued, ChatMessage.calls, h]

theorem toolCalls_append (ms ms' : List ChatMessage) :
    toolCalls (ms ++ ms') = toolCalls ms ++ toolCalls ms' := List.flatMap_append

theorem toolMessages_append (ms ms' : List ChatMessage) :
    toolMessages (ms ++ ms') = toolMessages ms ++ toolMessages ms' := List.filter_append _ _

theorem role_of_mem_results {rounds : List Round} {message : ChatMessage}
    (h : message ∈ resultsOf opts rounds) : message.role = "tool" := by
  obtain ⟨result, -, rfl⟩ := List.mem_map.mp h
  rfl

@[simp] theorem toolCalls_results (rounds : List Round) :
    toolCalls (resultsOf opts rounds) = [] := by
  rw [toolCalls, List.flatMap_eq_nil_iff]
  intro message hmem
  simp [ChatMessage.issued, role_of_mem_results hmem]

@[simp] theorem toolMessages_results (rounds : List Round) :
    toolMessages (resultsOf opts rounds) = resultsOf opts rounds := by
  rw [toolMessages, List.filter_eq_self]
  intro message hmem
  simp [role_of_mem_results hmem]

theorem toolCalls_flush (p : Pending) : toolCalls (flush_pending p) = p.tool_calls := by
  unfold flush_pending
  split
  · next h =>
    simp only [Pending.isEmpty, decide_eq_true_eq] at h
    simp [toolCalls, h.2.1]
  · simp [toolCalls]

theorem toolMessages_flush (p : Pending) : toolMessages (flush_pending p) = [] := by
  unfold flush_pending
  split <;> simp [toolMessages, assistantMessage]

/-- The groups have the calls of the rounds. -/
theorem toolCalls_groups (groups : List (List Round)) :
    toolCalls (groups.flatMap (groupMessages opts)) = callsOf groups.flatten := by
  induction groups with
  | nil => rfl
  | cons g groups ih =>
    rw [List.flatMap_cons, toolCalls_append, ih]
    simp [groupMessages, toolCalls_append, toolCalls_flush, callsOf]

/-- The groups have the results of the rounds. -/
theorem toolMessages_groups (groups : List (List Round)) :
    toolMessages (groups.flatMap (groupMessages opts)) = resultsOf opts groups.flatten := by
  induction groups with
  | nil => rfl
  | cons g groups ih =>
    rw [List.flatMap_cons, toolMessages_append, ih, groupMessages, toolMessages_append,
      toolMessages_flush, toolMessages_results]
    simp [resultsOf]

end Ids

/-! ## What is replayed -/

/-- The pending lists with some of the calls only. -/
def Pending.keep (kept : ToolCall → Bool) (p : Pending) : Pending :=
  { p with tool_calls := p.tool_calls.filter kept }

/-- The text of the content is blank, and there is no text of reasoning beside it. -/
def Pending.Blank (p : Pending) : Prop :=
  strip ("\n".intercalate p.content).toList = [] ∧ "\n".intercalate p.reasoning = ""

/-- **What a group of rounds becomes**, when the calls that satisfy `kept` stay: one assistant
message with the texts of the group and these calls, followed by results that answer exactly these
calls. A group without such calls may become no message at all if it is one that can get lost. -/
def IsBlock (opts : Options) (kept : ToolCall → Bool) (lost : List Round → Prop) (g : List Round)
    (block : List ChatMessage) : Prop :=
  (((callsOf g).filter kept).map ToolCall.id).Perm
      ((resultsOf opts g).map ChatMessage.tool_call_id) ∧
    (block = assistantMessage ((roundsPending opts g).keep kept) :: resultsOf opts g ∨
      block = [] ∧ (callsOf g).filter kept = [] ∧ lost g)

/-- **The messages replay the rounds**, when the calls that satisfy `kept` stay. -/
structure Replays (opts : Options) (kept : ToolCall → Bool) (lost : List Round → Prop)
    (rounds : List Round) (messages : List ChatMessage) : Prop where
  /-- The calls are those that stay, in their order. -/
  calls : toolCalls messages = (callsOf rounds).filter kept
  /-- The results are those of the rounds, in their order. -/
  results : toolMessages messages = resultsOf opts rounds
  /-- The rounds are taken in groups of consecutive ones, of which only the last may be without
  results, and each group becomes a block. -/
  blocks : ∃ (groups : List (List Round)) (blocks : List (List ChatMessage)),
    groups.flatten = rounds ∧ (∀ g ∈ groups.dropLast, resultsOf opts g ≠ []) ∧
      List.Forall₂ (IsBlock opts kept lost) groups blocks ∧ messages = blocks.flatten

/-- Rounds in which every result is one of a call of its round. The calls have ids, all different.
-/
structure WellPaired (rounds : List Round) : Prop where
  bodies : ∀ r ∈ rounds, ∀ item ∈ r.body, item.isOutput = false
  answers : ∀ r ∈ rounds, List.Subperm (r.outputs.map ToolOutput.id) (r.calls.map ToolCall.id)
  distinct : ((callsOf rounds).map ToolCall.id).Nodup
  named : ∀ tool_call ∈ callsOf rounds, idTruthy tool_call.id

local instance lawfulBEqCallId : LawfulBEq (Option String) := inferInstance

/-- Whether a call has a result. -/
def answered (rounds : List Round) (tool_call : ToolCall) : Bool :=
  tool_call.id ∈ (rounds.flatMap Round.outputs).map ToolOutput.id

section Paired

variable {opts : Options} {rounds : List Round}

@[simp] theorem ids_resultsOf (rounds : List Round) :
    (resultsOf opts rounds).map ChatMessage.tool_call_id =
      (rounds.flatMap Round.outputs).map ToolOutput.id := by
  rw [resultsOf, List.map_map]
  rfl

theorem callsOf_append (rounds rounds' : List Round) :
    callsOf (rounds ++ rounds') = callsOf rounds ++ callsOf rounds' := List.flatMap_append

/-- The results of some rounds are those of calls of theirs. -/
theorem subperm_ids
    (h : ∀ r ∈ rounds, List.Subperm (r.outputs.map ToolOutput.id) (r.calls.map ToolCall.id)) :
    List.Subperm ((rounds.flatMap Round.outputs).map ToolOutput.id)
      ((callsOf rounds).map ToolCall.id) := by
  induction rounds with
  | nil => exact List.Subperm.refl _
  | cons r rounds ih =>
    rw [List.forall_mem_cons] at h
    simpa [callsOf] using h.1.append (ih h.2)

/-- **The calls of a group that have a result are those that a result of the group answers.** The
results of the other rounds have other ids. -/
theorem WellPaired.perm {before g after : List Round} (h : WellPaired (before ++ (g ++ after))) :
    (((callsOf g).filter (answered (before ++ (g ++ after)))).map ToolCall.id).Perm
      ((g.flatMap Round.outputs).map ToolOutput.id) := by
  have hdistinct := h.distinct
  simp only [callsOf_append, List.map_append, List.nodup_append] at hdistinct
  obtain ⟨-, ⟨hg, -, hafter⟩, hbefore⟩ := hdistinct
  have hanswers := h.answers
  simp only [List.forall_mem_append] at hanswers
  have hsub := subperm_ids hanswers.2.1
  rw [List.perm_ext_iff_of_nodup]
  · intro id
    constructor
    · intro hid
      obtain ⟨tool_call, hcall, rfl⟩ := List.mem_map.mp hid
      rw [List.mem_filter] at hcall
      have hmem := List.mem_map_of_mem (f := ToolCall.id) hcall.1
      have hans := hcall.2
      simp only [answered, decide_eq_true_eq, List.flatMap_append, List.map_append,
        List.mem_append] at hans
      rcases hans with hans | hans | hans
      · have := (subperm_ids hanswers.1).subset hans
        exact absurd rfl (hbefore _ this _ (List.mem_append_left _ hmem))
      · exact hans
      · have := (subperm_ids hanswers.2.2).subset hans
        exact absurd rfl (hafter _ hmem _ this)
    · intro hid
      obtain ⟨tool_call, hcall, rfl⟩ := List.mem_map.mp (hsub.subset hid)
      refine List.mem_map_of_mem (List.mem_filter.mpr ⟨hcall, ?_⟩)
      simp only [answered, List.flatMap_append, List.map_append, List.mem_append,
        decide_eq_true_eq]
      exact Or.inr (Or.inl hid)
  · exact hg.sublist (List.filter_sublist.map ToolCall.id)
  · obtain ⟨l, hperm, hl⟩ := hsub
    exact hperm.nodup_iff.mp (hg.sublist hl)

/-! ### Reconciling a group -/

/-- What becomes of an assistant message: it keeps the calls that have a result, or it has lost all
its calls and goes. -/
theorem reconcile_assistantMessage (completed requested : List (Option String)) (p : Pending) :
    let kept := fun tool_call : ToolCall => decide (tool_call.id ∈ completed)
    let message := repairMessage reconcileOrphaned completed requested (assistantMessage p)
    message = some (assistantMessage (p.keep kept)) ∨
      message = none ∧ p.tool_calls.filter kept = [] ∧ p.tool_calls ≠ [] ∧ p.Blank := by
  intro kept message
  have hrole : (assistantMessage p).role ≠ "tool" := by simp [assistantMessage]
  have hmessage : message = if p.tool_calls = [] then some (assistantMessage p)
      else if p.tool_calls.filter kept = [] then reconcileOrphaned (assistantMessage p)
      else some { assistantMessage p with tool_calls := some (p.tool_calls.filter kept) } := by
    simp only [message, repairMessage, if_neg hrole, issued_assistantMessage]
    rfl
  by_cases hcalls : p.tool_calls = []
  · left
    have hkeep : p.keep kept = p := by
      apply Pending.ext' <;> simp [Pending.keep, hcalls]
    rw [hmessage, if_pos hcalls, hkeep]
  · rw [hmessage, if_neg hcalls]
    by_cases hkept : p.tool_calls.filter kept = []
    · rw [if_pos hkept]
      unfold reconcileOrphaned
      by_cases hmeaning : has_meaningful_content (assistantMessage p) ||
          fieldTruthy (assistantMessage p).reasoning_content
      · left
        rw [if_pos hmeaning]
        simp [assistantMessage, Pending.keep, hkept]
      · right
        rw [if_neg hmeaning]
        refine ⟨rfl, hkept, hcalls, ?_⟩
        simp only [Bool.or_eq_true, not_or] at hmeaning
        obtain ⟨hcontent, hreasoning⟩ := hmeaning
        constructor
        · simpa [has_meaningful_content, assistantMessage] using hcontent
        · by_cases hnone : p.reasoning = []
          · rw [hnone]
            rfl
          · simpa [fieldTruthy, assistantMessage, hnone] using hreasoning
    · left
      rw [if_neg hkept]
      simp only [assistantMessage, Pending.keep, Option.some.injEq, ChatMessage.mk.injEq, true_and]
      exact ⟨(if_neg hkept).symm, rfl, rfl⟩

/-- What is left of the messages of a group whose results all stay. -/
theorem reconcile_groupMessages {completed requested : List (Option String)} {g : List Round}
    (hrequested : ∀ result ∈ g.flatMap Round.outputs, result.id ∈ requested)
    (hperm : (((callsOf g).filter fun tool_call => tool_call.id ∈ completed).map ToolCall.id).Perm
      ((g.flatMap Round.outputs).map ToolOutput.id)) :
    IsBlock opts (fun tool_call => tool_call.id ∈ completed)
      (fun g => textsOf opts g = [] ∨ callsOf g ≠ [] ∧ (roundsPending opts g).Blank) g
      ((groupMessages opts g).filterMap
        (repairMessage reconcileOrphaned completed requested)) := by
  have hresults : (resultsOf opts g).filterMap
      (repairMessage reconcileOrphaned completed requested) = resultsOf opts g := by
    have hself : ∀ message ∈ resultsOf opts g,
        repairMessage reconcileOrphaned completed requested message = some message := by
      intro message hmem
      obtain ⟨result, hresult, rfl⟩ := List.mem_map.mp hmem
      exact repairMessage_eq_self (by simp [ChatMessage.issued, toolMessage])
        fun _ => hrequested result hresult
    rw [List.filterMap_congr hself, List.filterMap_some]
  -- without a call that stays there is no result
  have hnone (h : (callsOf g).filter (fun tool_call => decide (tool_call.id ∈ completed)) = []) :
      resultsOf opts g = [] := by
    rw [h, List.map_nil, ← @ids_resultsOf opts] at hperm
    exact List.map_eq_nil_iff.mp hperm.symm.eq_nil
  refine ⟨by rwa [ids_resultsOf], ?_⟩
  rw [groupMessages, List.filterMap_append, hresults]
  by_cases hempty : (roundsPending opts g).isEmpty
  · right
    have hp := hempty
    simp only [Pending.isEmpty, decide_eq_true_eq, roundsPending_tool_calls] at hp
    have hfilter : (callsOf g).filter
        (fun tool_call => decide (tool_call.id ∈ completed)) = [] := by simp [hp.2.1]
    rw [flush_pending, if_pos hempty, hnone hfilter]
    exact ⟨rfl, hfilter, Or.inl hp.1⟩
  · rw [flush_pending, if_neg hempty]
    rcases reconcile_assistantMessage completed requested (roundsPending opts g) with h | h
    · left
      rw [List.filterMap_cons_some h]
      rfl
    · right
      obtain ⟨hmessage, hfilter, hcalls, hblank⟩ := h
      rw [roundsPending_tool_calls] at hfilter hcalls
      rw [List.filterMap_cons_none hmessage, hnone hfilter]
      exact ⟨rfl, hfilter, Or.inr ⟨hcalls, hblank⟩⟩

/-! ### Reconciling all groups -/

/-- A block is one for any two sets of calls that agree on the group. -/
theorem IsBlock.congr {kept kept' : ToolCall → Bool} {lost lost' : List Round → Prop}
    {g : List Round} {block : List ChatMessage} (h : IsBlock opts kept lost g block)
    (hkept : ∀ tool_call ∈ callsOf g, kept tool_call = kept' tool_call)
    (hlost : (callsOf g).filter kept' = [] → lost g → lost' g) :
    IsBlock opts kept' lost' g block := by
  have hfilter : (callsOf g).filter kept = (callsOf g).filter kept' := List.filter_congr hkept
  have hkeep : (roundsPending opts g).keep kept = (roundsPending opts g).keep kept' := by
    simp [Pending.keep, hfilter]
  obtain ⟨hperm, hblock⟩ := h
  rw [hfilter] at hperm hblock
  rw [hkeep] at hblock
  exact ⟨hperm, hblock.imp_right fun ⟨hnil, hcalls, hl⟩ => ⟨hnil, hcalls, hlost hcalls hl⟩⟩

/-- The messages that can get lost: those of a group without a text, and the blank ones of a group
whose calls have no results. -/
def Lost (opts : Options) (g : List Round) : Prop :=
  textsOf opts g = [] ∨ callsOf g ≠ [] ∧ (roundsPending opts g).Blank

/-- **Stored output is replayed**, with the calls that have a result. -/
theorem replays_answered (h : WellPaired rounds) :
    Replays opts (answered rounds) (Lost opts) rounds
      (convert_output_to_messages opts (itemsOf rounds)) := by
  set groups := groupsFrom [] rounds with hgroups
  have hflat : groups.flatten = rounds := flatten_groupsFrom [] rounds
  have hitems := convertItems_eq opts h.bodies
  rw [← hgroups] at hitems
  have htools : toolMessages (convertItems opts (itemsOf rounds)) = resultsOf opts rounds := by
    rw [hitems, toolMessages_groups, hflat]
  have hcalls : toolCalls (convertItems opts (itemsOf rounds)) = callsOf rounds := by
    rw [hitems, toolCalls_groups, hflat]
  set completed := completed_tool_call_ids (convertItems opts (itemsOf rounds)) with hcompleted
  set requested := requested_tool_call_ids (convertItems opts (itemsOf rounds)) with hrequested
  -- the ids of calls are not empty, so a call is answered if and only if its id is completed
  have hanswered : ∀ tool_call ∈ callsOf rounds,
      decide (tool_call.id ∈ completed) = answered rounds tool_call := by
    intro tool_call hmem
    have hid := h.named tool_call hmem
    apply decide_eq_decide.mpr
    rw [hcompleted, mem_completed, htools, ← @ids_resultsOf opts, List.mem_map]
    exact and_iff_right hid
  have hissued : ∀ result ∈ rounds.flatMap Round.outputs, result.id ∈ requested := by
    intro result hmem
    have hid := (subperm_ids h.answers).subset (List.mem_map_of_mem hmem)
    obtain ⟨tool_call, hcall, heq⟩ := List.mem_map.mp hid
    rw [hrequested, mem_requested, hcalls, ← heq]
    exact ⟨h.named tool_call hcall, tool_call, hcall, rfl⟩
  have hresult : convert_output_to_messages opts (itemsOf rounds) =
      (groups.map fun g => (groupMessages opts g).filterMap
        (repairMessage reconcileOrphaned completed requested)).flatten := by
    rw [convert_output_to_messages, reconcile_tool_pairs_eq, repair, ← hcompleted, ← hrequested,
      hitems, List.filterMap_flatMap, List.flatMap_def]
  refine ⟨?_, ?_, groups, _, hflat, ?_, ?_, hresult⟩
  · rw [convert_output_to_messages, reconcile_tool_pairs_eq, toolCalls_repair
      strips_reconcileOrphaned, hcalls]
    exact List.filter_congr hanswered
  · rw [convert_output_to_messages, reconcile_tool_pairs_eq, toolMessages_repair
      strips_reconcileOrphaned, htools, List.filter_eq_self]
    intro message hmem
    obtain ⟨result, hout, rfl⟩ := List.mem_map.mp hmem
    exact decide_eq_true (hissued result hout)
  · intro g hg
    have := outputs_of_mem_dropLast hg
    simpa [resultsOf] using this
  · rw [List.forall₂_map_right_iff, List.forall₂_same]
    intro g hg
    obtain ⟨before, after, hsplit⟩ := List.append_of_mem hg
    have hrounds : rounds = before.flatten ++ (g ++ after.flatten) := by
      rw [← hflat, hsplit, List.flatten_append, List.flatten_cons]
    have hsub : ∀ tool_call ∈ callsOf g, tool_call ∈ callsOf rounds := by
      intro tool_call hmem
      rw [hrounds, callsOf_append, callsOf_append]
      exact List.mem_append_right _ (List.mem_append_left _ hmem)
    have hperm := WellPaired.perm (hrounds ▸ h)
    rw [← hrounds, ← List.filter_congr fun c hc => hanswered c (hsub c hc)] at hperm
    have hg' : ∀ result ∈ g.flatMap Round.outputs, result.id ∈ requested := by
      intro result hmem
      refine hissued result ?_
      rw [hrounds, List.flatMap_append, List.flatMap_append]
      exact List.mem_append_right _ (List.mem_append_left _ hmem)
    exact (reconcile_groupMessages hg' hperm).congr
      (fun tool_call hmem => hanswered tool_call (hsub tool_call hmem)) fun _ hl => hl

/-! ## Complete rounds -/

/-- Rounds in which every call has exactly one result, in the round. The calls have ids, all
different. -/
structure Complete (rounds : List Round) : Prop where
  bodies : ∀ r ∈ rounds, ∀ item ∈ r.body, item.isOutput = false
  answers : ∀ r ∈ rounds, (r.outputs.map ToolOutput.id).Perm (r.calls.map ToolCall.id)
  distinct : ((callsOf rounds).map ToolCall.id).Nodup
  named : ∀ tool_call ∈ callsOf rounds, idTruthy tool_call.id

theorem Complete.wellPaired (h : Complete rounds) : WellPaired rounds where
  bodies := h.bodies
  answers r hr := (h.answers r hr).subperm
  distinct := h.distinct
  named := h.named

/-- The results of complete rounds are those of all calls. -/
theorem perm_ids (h : ∀ r ∈ rounds, (r.outputs.map ToolOutput.id).Perm (r.calls.map ToolCall.id)) :
    ((rounds.flatMap Round.outputs).map ToolOutput.id).Perm ((callsOf rounds).map ToolCall.id) := by
  induction rounds with
  | nil => exact List.Perm.refl _
  | cons r rounds ih =>
    rw [List.forall_mem_cons] at h
    simpa [callsOf] using h.1.append (ih h.2)

/-- The calls of a group are among those of the rounds, in order. -/
theorem sublist_callsOf {groups : List (List Round)} {g : List Round} (h : g ∈ groups) :
    (callsOf g).Sublist (callsOf groups.flatten) := by
  rw [callsOf, callsOf]
  exact (List.sublist_flatten_of_mem h).flatMap _

/-- The sets of calls that stay matter on the calls of the rounds only. -/
theorem Replays.congr {kept kept' : ToolCall → Bool} {lost lost' : List Round → Prop}
    {messages : List ChatMessage} (h : Replays opts kept lost rounds messages)
    (hkept : ∀ tool_call ∈ callsOf rounds, kept tool_call = kept' tool_call)
    (hlost : ∀ g, (callsOf g).Sublist (callsOf rounds) → (callsOf g).filter kept' = [] → lost g →
      lost' g) : Replays opts kept' lost' rounds messages := by
  obtain ⟨groups, blocks, hflat, hlast, hblocks, hmessages⟩ := h.blocks
  refine ⟨h.calls.trans (List.filter_congr hkept), h.results, groups, blocks, hflat, hlast, ?_,
    hmessages⟩
  have hsub : ∀ g ∈ groups, (callsOf g).Sublist (callsOf rounds) := by
    intro g hg
    rw [← hflat]
    exact sublist_callsOf hg
  refine ((List.forall₂_and_left _ _).mpr ⟨hsub, hblocks⟩).imp ?_
  rintro g block ⟨hg, hblock⟩
  exact hblock.congr (fun tool_call hmem => hkept tool_call (hg.subset hmem)) (hlost g hg)

/-- Of complete rounds nothing is lost. -/
theorem Complete.replays (h : Complete rounds) :
    Replays opts (fun _ => true) (fun g => textsOf opts g = []) rounds
      (convert_output_to_messages opts (itemsOf rounds)) := by
  refine (replays_answered h.wellPaired).congr (fun tool_call hmem => ?_) fun g _ hcalls hl => ?_
  · exact decide_eq_true ((perm_ids h.answers).symm.subset (List.mem_map_of_mem hmem))
  · rw [List.filter_true] at hcalls
    exact hl.resolve_right fun hne => hne.1 hcalls

section Drop

variable {before after : List Round} {r : Round} {os os' : List ToolOutput} {result : ToolOutput}

/-- Without one of the results, the others are still those of calls of their rounds. -/
theorem Complete.wellPaired_drop (h : Complete (before ++ r :: after))
    (hr : r.outputs = os ++ result :: os') :
    WellPaired (before ++ ⟨r.body, os ++ os'⟩ :: after) := by
  have hcalls : callsOf (before ++ ⟨r.body, os ++ os'⟩ :: after) =
      callsOf (before ++ r :: after) := by
    simp [callsOf, Round.calls]
  have hbodies := h.bodies
  have hanswers := h.answers
  simp only [List.forall_mem_append, List.forall_mem_cons] at hbodies hanswers
  constructor
  · simpa only [List.forall_mem_append, List.forall_mem_cons] using hbodies
  · simp only [List.forall_mem_append, List.forall_mem_cons]
    refine ⟨fun q hq => (hanswers.1 q hq).subperm, ?_,
      fun q hq => (hanswers.2.2 q hq).subperm⟩
    have hsub : ((os ++ os').map ToolOutput.id).Sublist (r.outputs.map ToolOutput.id) := by
      rw [hr]
      exact ((List.sublist_cons_self result os').append_left os).map _
    exact hsub.subperm.trans hanswers.2.1.subperm
  · rw [hcalls]
    exact h.distinct
  · rw [hcalls]
    exact h.named

/-- Without one of the results, the calls that have one are those of another id. -/
theorem Complete.answered_drop (h : Complete (before ++ r :: after))
    (hr : r.outputs = os ++ result :: os') {tool_call : ToolCall}
    (hmem : tool_call ∈ callsOf (before ++ r :: after)) :
    answered (before ++ ⟨r.body, os ++ os'⟩ :: after) tool_call =
      decide (tool_call.id ≠ result.id) := by
  have hperm := perm_ids h.answers
  have hmid : ((before ++ r :: after).flatMap Round.outputs).map ToolOutput.id |>.Perm
      (result.id :: ((before ++ ⟨r.body, os ++ os'⟩ :: after).flatMap Round.outputs).map
        ToolOutput.id) := by
    simp only [List.flatMap_append, List.flatMap_cons, hr, List.map_append, List.map_cons,
      List.append_assoc, List.cons_append]
    rw [← List.append_assoc, ← List.append_assoc (List.map _ _) (List.map _ _)]
    exact List.perm_middle
  have hcons := hmid.symm.trans hperm
  have hnodup := hcons.nodup_iff.mpr h.distinct
  rw [List.nodup_cons] at hnodup
  have hid := hcons.symm.subset (List.mem_map_of_mem (f := ToolCall.id) hmem)
  apply decide_eq_decide.mpr
  rw [List.mem_cons] at hid
  constructor
  · intro hans heq
    exact hnodup.1 (heq ▸ hans)
  · exact hid.resolve_left

/-- Of complete rounds without one result, only the call of this result is lost, and a blank text of
the last answer if it has no other call. -/
theorem Complete.replays_drop (h : Complete (before ++ r :: after))
    (hr : r.outputs = os ++ result :: os') :
    Replays opts (fun tool_call => tool_call.id ≠ result.id)
      (fun g => textsOf opts g = [] ∨
        (callsOf g).map ToolCall.id = [result.id] ∧ (roundsPending opts g).Blank)
      (before ++ ⟨r.body, os ++ os'⟩ :: after)
      (convert_output_to_messages opts
        (itemsOf (before ++ ⟨r.body, os ++ os'⟩ :: after))) := by
  have hcalls : callsOf (before ++ ⟨r.body, os ++ os'⟩ :: after) =
      callsOf (before ++ r :: after) := by
    simp [callsOf, Round.calls]
  refine (replays_answered (h.wellPaired_drop hr)).congr (fun tool_call hmem => ?_)
    fun g hg hnone hl => ?_
  · exact h.answered_drop hr (hcalls ▸ hmem)
  · refine hl.imp_right fun ⟨hne, hblank⟩ => ⟨?_, hblank⟩
    -- the ids of the group are all the same, and different
    have hall : ∀ id ∈ (callsOf g).map ToolCall.id, id = result.id := by
      intro id hid
      obtain ⟨tool_call, hcall, rfl⟩ := List.mem_map.mp hid
      have := List.filter_eq_nil_iff.mp hnone tool_call hcall
      simpa using this
    have hrep := List.eq_replicate_of_mem hall
    have hnodup := h.distinct.sublist ((hcalls ▸ hg).map ToolCall.id)
    rw [hrep, List.nodup_replicate] at hnodup
    have hlen : ((callsOf g).map ToolCall.id).length = 1 := by
      have hpos : 0 < (callsOf g).length := List.length_pos_iff.mpr hne
      rw [List.length_map] at hnodup ⊢
      omega
    rw [hrep, hlen]
    rfl

end Drop

end Paired

/-! ## The result -/

/-- The arguments for a request to a strict provider. -/
def strictOptions : Options := ⟨plainConversions, true, none⟩

/-- A round of a text, a call and its result. -/
def textAndCall (text : String) : Round where
  body := [.message [⟨some "output_text", some text⟩], .function_call (some "a") (some "f") none]
  outputs := [⟨some "a", [⟨some "input_text", some (.str "done"), none⟩]⟩]

theorem complete_textAndCall (text : String) : Complete [textAndCall text] where
  bodies := by simp [textAndCall, Item.isOutput]
  answers := by simp [textAndCall, Round.calls, Item.calls, functionCall, ToolOutput.id]
  distinct := by simp [textAndCall, callsOf, Round.calls, Item.calls]
  named := by simp [textAndCall, callsOf, Round.calls, Item.calls, functionCall, idTruthy]

end OpenLaunch.Replay
