import OpenLaunch.Python.Conversions
import OpenLaunch.Python.JsonText
import OpenLaunch.Tools.CircuitBreaker
import Mathlib.Tactic.Tauto

/-! # The tool executor

`ToolExecutor.execute_batch` runs the calls of one model turn concurrently and returns their results
in order. Its coroutines are suspended only at their `await`s, so the executor is modelled as a
transition system whose events are the pieces of code between two `await`s, together with what the
environment may do meanwhile: time passes, other executors use the shared circuit breaker and the
global semaphore, a client cancels a batch. `step` executes one event.

Metrics, logging and the value of the timeout are left out: nothing here reads the former, and a
timeout may strike at any moment. -/

namespace OpenLaunch.Tools

open Python

/-! ## Configuration -/

/-- The limits set in `env.py` (the prefix `TOOL_EXECUTOR_` is dropped). -/
structure Env where
  global_concurrency : ℕ
  request_concurrency : ℕ
  max_result_bytes_per_turn : ℕ
  max_result_bytes_per_request : ℕ
  max_result_tokens_per_turn : ℕ
  max_result_tokens_per_request : ℕ
  max_calls_per_request : ℕ

/-- The defaults of `env.py`. -/
def Env.default : Env where
  global_concurrency := 16
  request_concurrency := 4
  max_result_bytes_per_turn := 256 * 1024
  max_result_bytes_per_request := 1024 * 1024
  max_result_tokens_per_turn := 64 * 1024
  max_result_tokens_per_request := 256 * 1024
  max_calls_per_request := 64

/-- The complete annotations that `normalize_tool_annotations` returns. -/
structure Annotations where
  read_only : Bool
  destructive : Bool
  idempotent : Bool
  external_network : Bool
  approval_required : Bool
  output_budget_bytes : ℕ
  concurrency_class : String
  concurrency_limit : ℕ
  retry_eligible : Bool
  max_retries : ℕ
  quota_per_request : ℕ
  /-- Only a call that may be repeated is retried. -/
  retry_safe : retry_eligible = true → idempotent = true ∧ destructive = false
  max_retries_le : max_retries ≤ 2
  quota_pos : 1 ≤ quota_per_request
  output_budget_le : 256 ≤ output_budget_bytes
  deriving DecidableEq

/-- `tool_type in {"external", "mcp", "terminal", "action"}`, which raises for an unhashable type.
-/
def isExternalType (tool_type : Json) : Except PyErr Bool := do
  let k ← tool_type.key
  return k ∈ [Json.Key.str "external", .str "mcp", .str "terminal", .str "action"]

theorem retries_le (n : ℤ) : (min 2 (max 0 n)).toNat ≤ 2 := by omega

theorem quota_floor (n : ℤ) : 1 ≤ (max 1 n).toNat := by omega

theorem budget_floor (n : ℤ) : 256 ≤ (max 256 n).toNat := by omega

/-- `normalize_tool_annotations(value, tool_type=tool_type)`. -/
def normalize_tool_annotations (env : Env) (conv : Conversions) (value tool_type : Json) :
    Except PyErr Annotations := do
  let source := match value with
    | .dict kvs => kvs
    | _ => []
  let get := fun (k : String) (default : Json) => (Assoc.get? source k).getD default
  let external := (get "external_network" (.bool (← isExternalType tool_type))).truthy
  let destructive := (get "destructive" (.bool true)).truthy
  let read_only := (get "read_only" (.bool false)).truthy
  let idempotent := (get "idempotent" (.bool false)).truthy
  let approval_required := (get "approval_required" (.bool destructive)).truthy
  -- the default timeout is a number, so only a given one can raise
  conv.float (get "timeout_seconds" (.int 30))
  let output_budget_bytes ← conv.int (get "output_budget_bytes" (.int (64 * 1024)))
  let concurrency_class :=
    conv.str (get "concurrency_class" (.str (if external then "external" else "default")))
  let concurrency_limit ← conv.int (get "concurrency_limit" (.int (if external then 2 else 0)))
  let max_retries ← conv.int (get "max_retries" (.int 0))
  let quota_per_request ← conv.int (get "quota_per_request" (.int env.max_calls_per_request))
  return {
    read_only, destructive, idempotent, external_network := external, approval_required
    output_budget_bytes := (max 256 output_budget_bytes).toNat
    concurrency_class
    concurrency_limit := (max 0 concurrency_limit).toNat
    retry_eligible := (get "retry_eligible" (.bool false)).truthy && idempotent && !destructive
    max_retries := (min 2 (max 0 max_retries)).toNat
    quota_per_request := (max 1 quota_per_request).toNat
    retry_safe := by simp; tauto
    max_retries_le := retries_le _
    quota_pos := quota_floor _
    output_budget_le := budget_floor _ }

/-- A tool of the registry. A missing entry of its dictionary is the default that `.get` returns. -/
structure Tool where
  /-- `tool.get("annotations")`. -/
  annotations : Json
  /-- `tool.get("type", "")`. -/
  type : Json
  /-- `tool.get("spec", {})`. -/
  spec : Json
  /-- `tool.get("direct")`. -/
  direct : Bool
  /-- `tool.get("callable")` is there. -/
  callable : Bool

/-- `spec.get("parameters", {}).get("properties", {})`. -/
def Tool.properties (tool : Tool) : Except PyErr Json := do
  let parameters ← tool.spec.getD "parameters" (.dict [])
  parameters.getD "properties" (.dict [])

/-- The arguments of a call: a `dict`. -/
abbrev Args := List (String × Json)

/-- `class ToolCall`. -/
structure ToolCall where
  call_id : String
  name : String
  arguments : Json

/-- `class ToolExecutor`: what does not change after `__init__`. -/
structure ToolExecutor where
  env : Env
  conv : Conversions
  tools : Dict String Tool
  request_concurrency : ℕ
  turn_budget : ℕ
  request_budget : ℕ
  turn_token_budget : ℕ
  request_token_budget : ℕ
  max_calls : ℕ
  /-- `direct_executor is not None`. -/
  direct_executor : Bool
  /-- `callable_resolver is not None`. -/
  callable_resolver : Bool
  /-- `metric_hook is not None`. -/
  metric_hook : Bool

/-- `min(limit, max(least, requested or limit))`. -/
def bounded (limit : ℕ) (least : ℤ) (requested : Option ℤ) : ℕ :=
  let value : ℤ := match requested with
    | none => limit
    | some n => if n = 0 then limit else n
  min limit (max least value).toNat

/-- The keyword arguments of `ToolExecutor.__init__`. -/
structure Options where
  request_concurrency : Option ℤ
  turn_budget_bytes : Option ℤ
  request_budget_bytes : Option ℤ
  turn_budget_tokens : Option ℤ
  request_budget_tokens : Option ℤ
  max_calls : Option ℤ
  direct_executor : Bool
  callable_resolver : Bool
  metric_hook : Bool

/-- No keyword argument given. -/
def Options.none : Options := ⟨.none, .none, .none, .none, .none, .none, false, false, false⟩

/-- `ToolExecutor.__init__`. -/
def ToolExecutor.init (env : Env) (conv : Conversions) (tools : Dict String Tool) (o : Options) :
    ToolExecutor where
  env := env
  conv := conv
  tools := tools
  request_concurrency := bounded env.request_concurrency 1 o.request_concurrency
  turn_budget := bounded env.max_result_bytes_per_turn 256 o.turn_budget_bytes
  request_budget := bounded env.max_result_bytes_per_request 256 o.request_budget_bytes
  turn_token_budget := bounded env.max_result_tokens_per_turn 1 o.turn_budget_tokens
  request_token_budget := bounded env.max_result_tokens_per_request 1 o.request_budget_tokens
  max_calls := bounded env.max_calls_per_request 1 o.max_calls
  direct_executor := o.direct_executor
  callable_resolver := o.callable_resolver
  metric_hook := o.metric_hook

/-- `normalize_tool_annotations(tool.get("annotations"), tool_type=tool.get("type", ""))`. -/
def ToolExecutor.annotations (x : ToolExecutor) (tool : Tool) : Except PyErr Annotations :=
  normalize_tool_annotations x.env x.conv tool.annotations tool.type

/-! ## Results -/

/-- The statuses of results. -/
inductive Status
  | success
  | timeout
  | internal_error
  | budget_exceeded
  | unknown_tool
  | quota_exceeded
  | malformed_arguments
  | unavailable
  deriving DecidableEq

/-- The text of a status, which is the code of its error. -/
def Status.code : Status → String
  | .success => "success"
  | .timeout => "timeout"
  | .internal_error => "internal_error"
  | .budget_exceeded => "budget_exceeded"
  | .unknown_tool => "unknown_tool"
  | .quota_exceeded => "quota_exceeded"
  | .malformed_arguments => "malformed_arguments"
  | .unavailable => "unavailable"

/-- The call was turned away before its first attempt. -/
def Status.rejected : Status → Bool
  | .unknown_tool | .quota_exceeded | .malformed_arguments | .unavailable => true
  | _ => false

def SAFE_MESSAGES : List (String × String) :=
  [("cancelled", "Tool execution was cancelled."),
    ("timeout", "Tool execution timed out."),
    ("unavailable", "Tool is temporarily unavailable."),
    ("malformed_arguments", "Tool call arguments were malformed or incomplete."),
    ("unknown_tool", "The requested tool is unavailable."),
    ("budget_exceeded", "Tool result budget was exceeded."),
    ("quota_exceeded", "Tool execution quota was exceeded."),
    ("internal_error", "Tool execution failed.")]

/-- `structured_error(code, tool_name)`. -/
def structured_error (code tool_name : String) : Json :=
  .dict ([("status", .str "error"), ("code", .str code),
    ("message", .str ((Assoc.get? SAFE_MESSAGES code).getD "Tool execution failed."))] ++
      if tool_name = "" then [] else [("tool", .str tool_name)])

/-- What a tool returned: a JSON value, or any other object by the text `json.dumps` makes of it
(`none` where that, or the UTF-8 encoding, raises) and the text of its type. -/
inductive Content
  | json (value : Json)
  | object (dumped : Option String) (type : String)

/-- The number of bytes of the UTF-8 encoding. -/
def utf8Length (cs : List Char) : ℕ := (cs.map Char.utf8Size).sum

/-- `ToolExecutor._serialized_size`. -/
def serialized_size : Content → ℕ
  | .json value => utf8Length (dumps .unicode value)
  | .object (some text) _ => utf8Length text.toList
  | .object none type => utf8Length type.toList

/-- `ToolExecutor._estimated_tokens`. -/
def estimated_tokens (c : Content) : ℕ := max 1 ((serialized_size c + 3) / 4)

/-- `class ToolResult`. -/
structure ToolResult where
  call_id : String
  name : String
  content : Content
  arguments : Args
  latency_ms : ℚ
  status : Status

/-- The result of a call that failed with `status`, its content the structured error. -/
def errorResult (call : ToolCall) (status : Status) (arguments : Args) : ToolResult :=
  ⟨call.call_id, call.name, .json (structured_error status.code call.name), arguments, 0, status⟩

/-! ## The state -/

/-- What `_execute_one` knows of a call once it has admitted it. -/
structure Admitted where
  tool : Tool
  annotations : Annotations
  params : Args
  started : ℚ

/-- `attempts`. -/
def Admitted.attempts (a : Admitted) : ℕ :=
  1 + if a.annotations.retry_eligible then a.annotations.max_retries else 0

/-- Where a call is in `_execute_one`. -/
inductive Phase
  /-- Its task has not run yet. -/
  | created
  /-- It is admitted and holds the first `held` of the class, batch and global semaphores. -/
  | waiting (a : Admitted) (held : ℕ)
  /-- It holds all three, and the attempt `n` is next. -/
  | ready (a : Admitted) (n : ℕ)
  /-- The attempt `n` has started and has not called the callable. -/
  | invoking (a : Admitted) (n : ℕ)
  /-- The callable runs, in the attempt `n`. -/
  | running (a : Admitted) (n : ℕ)
  | finished (r : ToolResult)
  | raised (e : PyErr)
  | cancelled

/-- What an admitted call that has not ended knows. -/
def Phase.admitted? : Phase → Option Admitted
  | .waiting a _ | .ready a _ | .invoking a _ | .running a _ => some a
  | .created | .finished _ | .raised _ | .cancelled => none

/-- How many of the three semaphores the call holds. -/
def Phase.held : Phase → ℕ
  | .waiting _ held => held
  | .ready _ _ | .invoking _ _ | .running _ _ => 3
  | .created | .finished _ | .raised _ | .cancelled => 0

/-- One accepted call. `invoked` records the arguments of every call of its callable. -/
structure Task where
  batch : ℕ
  call : ToolCall
  phase : Phase
  invoked : List Args

/-- Where a batch is in `execute_batch`. -/
inductive BatchPhase
  /-- It awaits its calls, and has perhaps been cancelled. -/
  | gathering (cancelled : Bool)
  /-- It accounts for its results one by one. -/
  | accounting (turn_used turn_tokens : ℕ) (done todo : List ToolResult)
  | returned (results : List ToolResult)
  /-- An exception or a cancellation ended it at `gather`; its calls were perhaps cancelled. -/
  | abandoned (cancelled : Bool)
  /-- An exception or a cancellation ended it while accounting. -/
  | aborted (done : List ToolResult)

/-- One call of `execute_batch`. -/
structure Batch where
  calls : List ToolCall
  /-- `len(accepted)`. -/
  accepted : ℕ
  phase : BatchPhase

/-- The executor and what it shares with others. -/
structure World where
  /-- `time.monotonic()`. -/
  now : ℚ
  breaker : CircuitBreaker
  /-- What has been recorded with the breaker, newest first. -/
  history : List Record
  /-- Permits of the global semaphore that other executors hold. -/
  busy : ℕ
  calls_used : ℕ
  bytes_used : ℕ
  tokens_used : ℕ
  tool_counts : Dict String ℕ
  /-- The capacity of each class semaphore. -/
  class_semaphores : Dict String ℕ
  batches : List Batch
  tasks : List Task

/-- A new executor beside a new breaker. -/
def World.init (breaker : CircuitBreaker) : World where
  now := 0
  breaker := breaker
  history := []
  busy := 0
  calls_used := 0
  bytes_used := 0
  tokens_used := 0
  tool_counts := .empty
  class_semaphores := .empty
  batches := []
  tasks := []

namespace World

/-- `self.tool_counts[name]`. -/
def toolCount (w : World) (name : String) : ℕ := (w.tool_counts.get? name).getD 0

/-- How many calls hold the class semaphore of `concurrency_class`. -/
def classHolders (w : World) (concurrency_class : String) : ℕ :=
  w.tasks.countP fun t => 1 ≤ t.phase.held ∧
    t.phase.admitted?.map (·.annotations.concurrency_class) = some concurrency_class

/-- How many calls hold the semaphore of their batch. -/
def batchHolders (w : World) (batch : ℕ) : ℕ :=
  w.tasks.countP fun t => 2 ≤ t.phase.held ∧ t.batch = batch

/-- How many calls hold the global semaphore. -/
def globalHolders (w : World) : ℕ := w.tasks.countP fun t => 3 ≤ t.phase.held

/-- The task `k` moves on. -/
def setTask (w : World) (k : ℕ) (t : Task) : World := { w with tasks := w.tasks.set k t }

/-- The batch `b` moves on. -/
def setBatch (w : World) (b : ℕ) (batch : Batch) : World :=
  { w with batches := w.batches.set b batch }

/-- `_CIRCUIT_BREAKER.success(name)`. -/
def breakerSuccess (w : World) (name : String) : World :=
  { w with breaker := w.breaker.success name, history := .success name :: w.history }

/-- `_CIRCUIT_BREAKER.failure(name)`. -/
def breakerFailure (w : World) (name : String) : World :=
  { w with breaker := w.breaker.failure w.now name, history := .failure name w.now :: w.history }

/-- `_CIRCUIT_BREAKER.allow(name)`, as an update. -/
def breakerAllow (w : World) (name : String) : World :=
  { w with
    breaker := (w.breaker.allow w.now name).2
    history := w.breaker.afterAllow w.now name w.history }

end World

/-! ## One call -/

/-- `ToolExecutor._parse_arguments`. -/
def parse_arguments : Json → Option Args
  | .dict kvs => some kvs
  | .null => some []
  | .str s =>
    if s = "" then some []
    else match loads s.toList with
      | .ok (.dict kvs) => some kvs
      | _ => none
  | _ => none

/-- The arguments the callable may receive: those with a declared property. -/
def filterParams (properties : Json) (params : Args) : Args :=
  match properties with
  | .dict allowed => params.filter fun e => Assoc.contains allowed e.1
  | _ => params

/-- `self.class_semaphores.setdefault(class_name, Semaphore(…))`. -/
def World.registerClass (w : World) (x : ToolExecutor) (ann : Annotations) : World :=
  let class_limit :=
    if ann.concurrency_limit = 0 then x.request_concurrency else ann.concurrency_limit
  if ann.concurrency_class ∈ w.class_semaphores then w
  else { w with class_semaphores :=
    w.class_semaphores.set ann.concurrency_class (min x.request_concurrency class_limit) }

/-- `self.tool_counts[name] += 1`. -/
def World.countCall (w : World) (name : String) : World :=
  { w with tool_counts := w.tool_counts.set name (w.toolCount name + 1) }

/-- The check of the breaker, for a tool on an external network. -/
def consultBreaker (w : World) (call : ToolCall) (a : Admitted) : Phase × World :=
  if a.annotations.external_network then
    if (w.breaker.allow w.now call.name).1 then (.waiting a 0, w.breakerAllow call.name)
    else (.finished (errorResult call .unavailable a.params), w.breakerAllow call.name)
  else (.waiting a 0, w)

/-- The code of `_execute_one` before its first `await`. -/
def execute_one (x : ToolExecutor) (w : World) (call : ToolCall) : Phase × World :=
  match x.tools.get? call.name with
  | none => (.finished (errorResult call .unknown_tool []), w)
  | some tool =>
    match x.annotations tool with
    | .error e => (.raised e, w)
    | .ok ann =>
      let w := w.registerClass x ann
      if w.toolCount call.name ≥ ann.quota_per_request then
        (.finished (errorResult call .quota_exceeded []), w)
      else
        let w := w.countCall call.name
        match parse_arguments call.arguments with
        | none => (.finished (errorResult call .malformed_arguments []), w)
        | some params =>
          match tool.properties with
          | .error e => (.raised e, w)
          | .ok properties =>
            consultBreaker w call ⟨tool, ann, filterParams properties params, w.now⟩

/-- Whether the next semaphore the call waits for has a free permit. -/
def canAcquire (x : ToolExecutor) (w : World) (batch : ℕ) (a : Admitted) : ℕ → Bool
  | 0 => w.classHolders a.annotations.concurrency_class <
      (w.class_semaphores.get? a.annotations.concurrency_class).getD 0
  | 1 => w.batchHolders batch < x.request_concurrency
  | _ => w.busy + w.globalHolders < x.env.global_concurrency

/-- `invoke()` gets as far as calling something. -/
def canCall (x : ToolExecutor) (a : Admitted) : Bool :=
  if a.tool.direct then x.direct_executor else x.callable_resolver || a.tool.callable

/-- How an attempt ends. -/
inductive Outcome
  | success (content : Content)
  | timeout
  | exception

/-- The result of a call whose last attempt left `content` and `status`. -/
def finish (now : ℚ) (call : ToolCall) (a : Admitted) (content : Content) (status : Status) :
    ToolResult :=
  let latency_ms := (now - a.started) * 1000
  if serialized_size content > a.annotations.output_budget_bytes then
    ⟨call.call_id, call.name, .json (structured_error "budget_exceeded" call.name), a.params,
      latency_ms, .budget_exceeded⟩
  else ⟨call.call_id, call.name, content, a.params, latency_ms, status⟩

/-- Where the call is after the failed attempt `n`. -/
def afterFailure (now : ℚ) (call : ToolCall) (a : Admitted) (n : ℕ) (status : Status) : Phase :=
  if n + 1 < a.attempts then .ready a (n + 1)
  else .finished (finish now call a (.json (structured_error status.code call.name)) status)

/-- Where the call is after the attempt `n`. -/
def afterAttempt (now : ℚ) (call : ToolCall) (a : Admitted) (n : ℕ) : Outcome → Phase
  | .success content => .finished (finish now call a content .success)
  | .timeout => afterFailure now call a n .timeout
  | .exception => afterFailure now call a n .internal_error

/-- What the attempt records with the breaker. -/
def recordOutcome (w : World) (name : String) (a : Admitted) (o : Outcome) : World :=
  if a.annotations.external_network then
    match o with
    | .success _ => w.breakerSuccess name
    | .timeout | .exception => w.breakerFailure name
  else w

/-! ## One batch -/

/-- `execute_batch` up to its `gather`. -/
def World.executeBatch (w : World) (x : ToolExecutor) (calls : List ToolCall) : World :=
  if calls.isEmpty then { w with batches := w.batches ++ [⟨[], 0, .returned []⟩] }
  else
    -- `max(0, ·)` is the truncation of the subtraction
    let remaining := x.max_calls - w.calls_used
    let accepted := calls.take remaining
    { w with
      tasks := w.tasks ++ accepted.map fun call => ⟨w.batches.length, call, .created, []⟩
      batches := w.batches ++ [⟨calls, accepted.length, .gathering false⟩] }

/-- The results of the calls of a batch, once all have finished. -/
def World.results (w : World) (b : ℕ) : Option (List ToolResult) :=
  (w.tasks.filter fun t => t.batch = b).mapM fun t =>
    match t.phase with
    | .finished r => some r
    | _ => none

/-- `self.calls_used += accepted`. -/
def World.countCalls (w : World) (accepted : ℕ) : World :=
  { w with calls_used := w.calls_used + accepted }

/-- The results of the calls that were not accepted. -/
def Batch.unaccepted (batch : Batch) : List ToolResult :=
  (batch.calls.drop batch.accepted).map fun call => errorResult call .quota_exceeded []

/-- A content fits what is left of the four budgets. -/
def Fits (x : ToolExecutor) (w : World) (turn_used turn_tokens : ℕ) (c : Content) : Prop :=
  turn_used + serialized_size c ≤ x.turn_budget ∧
    w.bytes_used + serialized_size c ≤ x.request_budget ∧
    turn_tokens + estimated_tokens c ≤ x.turn_token_budget ∧
    w.tokens_used + estimated_tokens c ≤ x.request_token_budget

instance (x : ToolExecutor) (w : World) (turn_used turn_tokens : ℕ) (c : Content) :
    Decidable (Fits x w turn_used turn_tokens c) := inferInstanceAs (Decidable (_ ∧ _ ∧ _ ∧ _))

/-- The result with the error `budget_exceeded` in the place of its content. -/
def ToolResult.overBudget (r : ToolResult) : ToolResult :=
  { r with
    content := .json (structured_error "budget_exceeded" r.name)
    status := .budget_exceeded }

/-- The result the budgets let through. -/
def admitResult (x : ToolExecutor) (w : World) (turn_used turn_tokens : ℕ) (r : ToolResult) :
    ToolResult :=
  if Fits x w turn_used turn_tokens r.content then r else r.overBudget

/-- `normalize_tool_annotations` of the tool of a result, or of an empty tool. -/
def metricAnnotations (x : ToolExecutor) (name : String) : Except PyErr Annotations :=
  match x.tools.get? name with
  | some tool => x.annotations tool
  | none => normalize_tool_annotations x.env x.conv .null (.str "")

/-- Where the batch is after the result `r`: the metric hook is called, unless the annotations that
go with it raise. -/
def afterResult (x : ToolExecutor) (turn_used turn_tokens : ℕ) (done todo : List ToolResult)
    (r : ToolResult) : BatchPhase :=
  match metricAnnotations x r.name with
  | .ok _ =>
    .accounting (turn_used + serialized_size r.content) (turn_tokens + estimated_tokens r.content)
      (done ++ [r]) todo
  | .error _ => .aborted (done ++ [r])

/-- The result is charged to the request. -/
def World.charge (w : World) (r : ToolResult) : World :=
  { w with
    bytes_used := w.bytes_used + serialized_size r.content
    tokens_used := w.tokens_used + estimated_tokens r.content }

/-- One round of the accounting loop, up to the metric hook; without a result left it returns. -/
def World.account (w : World) (x : ToolExecutor) (b : ℕ) (batch : Batch) : Option World :=
  match batch.phase with
  | .accounting _ _ done [] => some (w.setBatch b { batch with phase := .returned done })
  | .accounting turn_used turn_tokens done (r :: todo) =>
    let r := admitResult x w turn_used turn_tokens r
    some ((w.charge r).setBatch b
      { batch with phase := afterResult x turn_used turn_tokens done todo r })
  | _ => none

/-! ## Events -/

/-- What can happen between two `await`s. -/
inductive Event
  /-- Time passes. -/
  | tick (d : ℚ)
  /-- Other executors hold `busy` permits of the global semaphore. -/
  | others (busy : ℕ)
  /-- Another executor calls `allow` on the breaker. -/
  | othersAllow (name : String)
  /-- Another executor calls `success` on the breaker. -/
  | othersSuccess (name : String)
  /-- Another executor calls `failure` on the breaker. -/
  | othersFailure (name : String)
  /-- `execute_batch` is called. -/
  | execute_batch (calls : List ToolCall)
  /-- The task `k` runs for the first time. -/
  | begin (k : ℕ)
  /-- The task `k` gets the next semaphore. -/
  | acquire (k : ℕ)
  /-- The task `k` starts its next attempt. -/
  | attempt (k : ℕ)
  /-- The task `k` calls its callable. -/
  | call (k : ℕ)
  /-- The attempt of the task `k` ends. -/
  | outcome (k : ℕ) (o : Outcome)
  /-- A cancellation reaches the task `k`, or its callable raises one. -/
  | cancelTask (k : ℕ)
  /-- The caller of the batch `b` is cancelled. -/
  | cancelBatch (b : ℕ)
  /-- `gather` of the batch `b` has all its results. -/
  | gathered (b : ℕ)
  /-- `gather` of the batch `b` raises what its task `k` did. -/
  | gatherFailed (b k : ℕ)
  /-- The batch `b` accounts for its next result. -/
  | account (b : ℕ)
  /-- The metric hook raises in the batch `b`. -/
  | hookFailed (b : ℕ)

/-- `gather` has cancelled the calls of the batch `b`. -/
def World.cancelling (w : World) (b : ℕ) : Bool :=
  match (w.batches[b]?).map Batch.phase with
  | some (.gathering c) => c
  | some (.abandoned c) => c
  | _ => false

/-- The task `k` when an event has taken it to `phase`. -/
def Task.to (t : Task) (phase : Phase) : Task := { t with phase := phase }

/-- **One step of the executor.** -/
def step (x : ToolExecutor) (w : World) : Event → Option World
  | .tick d => if 0 ≤ d then some { w with now := w.now + d } else none
  | .others busy =>
    if busy + w.globalHolders ≤ x.env.global_concurrency then some { w with busy := busy } else none
  | .othersAllow name => some (w.breakerAllow name)
  | .othersSuccess name => some (w.breakerSuccess name)
  | .othersFailure name => some (w.breakerFailure name)
  | .execute_batch calls => some (w.executeBatch x calls)
  | .begin k => do
    let t ← w.tasks[k]?
    match t.phase with
    | .created =>
      if w.cancelling t.batch then none
      else some ((execute_one x w t.call).2.setTask k (t.to (execute_one x w t.call).1))
    | _ => none
  | .acquire k => do
    let t ← w.tasks[k]?
    match t.phase with
    | .waiting a held =>
      if canAcquire x w t.batch a held then
        some (w.setTask k (t.to (if held < 2 then .waiting a (held + 1) else .ready a 0)))
      else none
    | _ => none
  | .attempt k => do
    let t ← w.tasks[k]?
    match t.phase with
    | .ready a n => some (w.setTask k (t.to (.invoking a n)))
    | _ => none
  | .call k => do
    let t ← w.tasks[k]?
    match t.phase with
    | .invoking a n =>
      if canCall x a then
        some (w.setTask k { t with phase := .running a n, invoked := a.params :: t.invoked })
      else none
    | _ => none
  | .outcome k o => do
    let t ← w.tasks[k]?
    match t.phase, o with
    | .running a n, o =>
      some ((recordOutcome w t.call.name a o).setTask k
        (t.to (afterAttempt w.now t.call a n o)))
    | .invoking _ _, .success _ => none
    | .invoking a n, o =>
      some ((recordOutcome w t.call.name a o).setTask k
        (t.to (afterAttempt w.now t.call a n o)))
    | _, _ => none
  | .cancelTask k => do
    let t ← w.tasks[k]?
    match t.phase with
    | .created | .waiting _ _ | .ready _ _ =>
      if w.cancelling t.batch then some (w.setTask k (t.to .cancelled)) else none
    | .invoking _ _ | .running _ _ => some (w.setTask k (t.to .cancelled))
    | .finished _ | .raised _ | .cancelled => none
  | .cancelBatch b => do
    let batch ← w.batches[b]?
    match batch.phase with
    | .gathering _ => some (w.setBatch b { batch with phase := .gathering true })
    | .accounting _ _ done _ =>
      if x.metric_hook then some (w.setBatch b { batch with phase := .aborted done }) else none
    | .returned _ | .abandoned _ | .aborted _ => none
  | .gathered b => do
    let batch ← w.batches[b]?
    let results ← w.results b
    match batch.phase with
    | .gathering true => some (w.setBatch b { batch with phase := .abandoned true })
    | .gathering false =>
      some ((w.countCalls batch.accepted).setBatch b
        { batch with phase := .accounting 0 0 [] (results ++ batch.unaccepted) })
    | _ => none
  | .gatherFailed b k => do
    let batch ← w.batches[b]?
    let t ← w.tasks[k]?
    match batch.phase, t.phase with
    | .gathering c, .raised _ | .gathering c, .cancelled =>
      if t.batch = b then some (w.setBatch b { batch with phase := .abandoned c }) else none
    | _, _ => none
  | .account b => do
    let batch ← w.batches[b]?
    w.account x b batch
  | .hookFailed b => do
    let batch ← w.batches[b]?
    match batch.phase with
    | .accounting _ _ done _ =>
      if x.metric_hook then some (w.setBatch b { batch with phase := .aborted done }) else none
    | _ => none

end OpenLaunch.Tools
