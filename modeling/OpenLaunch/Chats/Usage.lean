import OpenLaunch.Python.Arithmetic
import OpenLaunch.Chats.History

/-! # Token usage

The usage that a provider reports for a message. `normalize_usage` gives it the standard token
counts, and `merge_usage` adds the counts, the costs and the detailed counts of two usages. -/

namespace OpenLaunch.Chats

open Python

/-- A usage, as the entries of its JSON object. -/
abbrev Usage := List (String × Json)

/-- `usage.get(k₁) or … or usage.get(kₙ) or 0`. -/
def firstTruthy (usage : Usage) (ks : List String) : Json :=
  ((ks.map (Message.field usage)).find? Json.truthy).getD (.int 0)

/-- Where `normalize_usage` looks for the prompt's tokens: the standard name first, then those of
OpenAI, Ollama and llama.cpp. -/
def inputKeys : List String := ["input_tokens", "prompt_tokens", "prompt_eval_count", "prompt_n"]

/-- Where it looks for the generated tokens. -/
def outputKeys : List String := ["output_tokens", "completion_tokens", "eval_count", "predicted_n"]

variable (conv : Conversions) (floats : Floats)

/-- The `total_tokens` of a usage, before it is converted. -/
def totalTokens (usage : Usage) : Except PyErr Json :=
  if (Message.field usage "total_tokens").truthy then .ok (Message.field usage "total_tokens")
  else floats.plus (firstTruthy usage inputKeys) (firstTruthy usage outputKeys)

/-- `normalize_usage`, of a dictionary that is not empty. -/
def normalizeEntries (usage : Usage) : Except PyErr Usage := do
  let total_tokens ← totalTokens floats usage
  let input ← conv.int (firstTruthy usage inputKeys)
  let output ← conv.int (firstTruthy usage outputKeys)
  let total ← conv.int total_tokens
  return Assoc.set (Assoc.set (Assoc.set usage "input_tokens" (.int input))
    "output_tokens" (.int output)) "total_tokens" (.int total)

/-- `normalize_usage`. -/
def normalize_usage (usage : Json) : Except PyErr Usage :=
  if usage.truthy then
    match usage with
    | .dict kvs => normalizeEntries conv floats kvs
    | _ => .error .attributeError
  else .ok []

def USAGE_TOKEN_KEYS : List String :=
  ["input_tokens", "output_tokens", "total_tokens", "prompt_tokens", "completion_tokens"]

def USAGE_COST_KEYS : List String :=
  ["cost", "total_cost", "input_cost", "output_cost", "prompt_cost", "completion_cost"]

def USAGE_DETAIL_KEYS : List String :=
  ["prompt_tokens_details", "completion_tokens_details", "input_tokens_details",
    "output_tokens_details"]

/-- `usage.get(key, 0)`. -/
def countAt (usage : Usage) (key : String) : Json := (Assoc.get? usage key).getD (.int 0)

/-- `value if isinstance(value, dict) else {}`. -/
def asDict : Json → Usage
  | .dict kvs => kvs
  | _ => []

/-- `value if _is_numeric_usage_value(value) else 0`. -/
def numberOrZero (v : Json) : Json := if v.isNumber then v else .int 0

/-- The sum of two values one of which is a number, and else the value `v` of the merged
dictionary. -/
def mergedCount (current incoming v : Json) : Except PyErr Json :=
  if current.isNumber || incoming.isNumber then
    floats.plus (numberOrZero current) (numberOrZero incoming)
  else .ok v

theorem sizeOf_asDict_le (usage : Usage) (key : String) :
    sizeOf (asDict (countAt usage key)) ≤ sizeOf usage := by
  unfold countAt
  cases hget : Assoc.get? usage key with
  | none =>
    simp only [Option.getD_none, asDict, List.nil.sizeOf_spec]
    cases usage with
    | nil => exact Nat.le_refl _
    | cons e usage =>
      rw [List.cons.sizeOf_spec]
      omega
  | some v =>
    have hlt := List.sizeOf_lt_of_mem (Assoc.mem_of_get? hget)
    simp only [Prod.mk.sizeOf_spec] at hlt
    cases v <;> simp only [Option.getD_some, asDict, Json.dict.sizeOf_spec, List.nil.sizeOf_spec]
      at hlt ⊢ <;> omega

theorem sizeOf_asDict_lt {usage : Usage} {key : String} (h : (countAt usage key).isDict) :
    sizeOf (asDict (countAt usage key)) < sizeOf usage := by
  unfold countAt at h ⊢
  cases hget : Assoc.get? usage key with
  | none =>
    rw [hget] at h
    cases h
  | some v =>
    have hlt := List.sizeOf_lt_of_mem (Assoc.mem_of_get? hget)
    simp only [Prod.mk.sizeOf_spec] at hlt
    rw [hget] at h
    cases v with
    | dict kvs =>
      simp only [Option.getD_some, asDict, Json.dict.sizeOf_spec] at hlt ⊢
      omega
    | null | bool | int | float | str | list => cases h

/-- One of two values is a dictionary. -/
def EitherDict (current incoming : Json) : Prop := current.isDict ∨ incoming.isDict

instance (current incoming : Json) : Decidable (EitherDict current incoming) :=
  inferInstanceAs (Decidable (_ ∨ _))

theorem sizeOf_asDict_add_lt {current incoming : Usage} {key : String}
    (h : EitherDict (countAt current key) (countAt incoming key)) :
    sizeOf (asDict (countAt current key)) + sizeOf (asDict (countAt incoming key)) <
      sizeOf current + sizeOf incoming := by
  have hc := sizeOf_asDict_le current key
  have hi := sizeOf_asDict_le incoming key
  rcases h with h | h
  · have := sizeOf_asDict_lt h
    omega
  · have := sizeOf_asDict_lt h
    omega

/-- `_merge_numeric_usage_map`. -/
def _merge_numeric_usage_map (current incoming : Usage) : Except PyErr Usage :=
  (Assoc.update current incoming).mapM fun e =>
    Prod.mk e.1 <$>
      if _h : EitherDict (countAt current e.1) (countAt incoming e.1) then
        .dict <$> _merge_numeric_usage_map (asDict (countAt current e.1))
          (asDict (countAt incoming e.1))
      else mergedCount floats (countAt current e.1) (countAt incoming e.1) e.2
termination_by sizeOf current + sizeOf incoming
decreasing_by exact sizeOf_asDict_add_lt _h

/-- The value of a key of two usages that are merged, where `v` is that of `{**current, **incoming}`.
-/
def mergedValue (current incoming : Usage) (key : String) (v : Json) : Except PyErr Json :=
  if key ∈ USAGE_TOKEN_KEYS ∨ key ∈ USAGE_COST_KEYS then
    mergedCount floats (countAt current key) (countAt incoming key) v
  else if key ∈ USAGE_DETAIL_KEYS ∧ EitherDict (countAt current key) (countAt incoming key) then
    .dict <$> _merge_numeric_usage_map floats (asDict (countAt current key))
      (asDict (countAt incoming key))
  else .ok v

/-- `merge_usage`, of two usages that are normalized. -/
def mergeNormalized (current incoming : Usage) : Except PyErr Usage :=
  (Assoc.update current incoming).mapM fun e =>
    Prod.mk e.1 <$> mergedValue floats current incoming e.1 e.2

/-- `merge_usage`. -/
def merge_usage (current incoming : Json) : Except PyErr Usage := do
  let current_usage ← normalize_usage conv floats current
  let incoming_usage ← normalize_usage conv floats incoming
  if incoming_usage = [] then return current_usage
  if current_usage = [] then return incoming_usage
  mergeNormalized floats current_usage incoming_usage

end OpenLaunch.Chats
