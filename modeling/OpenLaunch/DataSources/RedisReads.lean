import OpenLaunch.Redis.Ranges
import OpenLaunch.Tools.Masking

/-! # Reads from Redis data sources

`_execute_redis_read` runs one of ten read operations with at most `DATA_SOURCE_MAX_ROWS` rows and
sends the rows as a tabular result. For `lrange` and `zrange` the last position asked for is the
smaller of the caller's and that of a full page; a negative position, which counts from the end, is
always the smaller one. -/

namespace OpenLaunch.DataSources

open Python Json OpenLaunch.Redis OpenLaunch.Tools

/-! ## The client -/

/-- Why a read fails. -/
inductive ReadError
  | valueError (text : String)
  | validation (text : String)
  /-- An exception of the client, by its class. -/
  | client (name : String)
  deriving DecidableEq, Repr

/-- What an iterator of the client yields, and what it raises after that. -/
structure Scan (α : Type) where
  values : List α
  error : Option ReadError

/-- The methods of `redis.Redis` that are called, with `decode_responses`. -/
structure RedisClient where
  /-- By `match` and `count`. -/
  scan_iter : String → ℕ → Scan String
  type : String → Except ReadError String
  ttl : String → Except ReadError ℤ
  get : String → Except ReadError (Option String)
  hget : String → String → Except ReadError (Option String)
  hscan_iter : String → ℕ → Scan (String × String)
  lrange : String → ℤ → ℤ → Except ReadError (List String)
  sscan_iter : String → ℕ → Scan String
  /-- With `withscores`. -/
  zrange : String → ℤ → ℤ → Except ReadError (List (String × FloatLit))
  /-- By `count`. -/
  xrange : String → ℕ → Except ReadError (List (String × List (String × String)))

/-- The loop over an iterator: it is left with the first value above the limit. -/
def firstValues {α : Type} (max_rows : ℕ) (scan : Scan α) : Except ReadError (List α) :=
  if max_rows < scan.values.length then .ok (scan.values.take (max_rows + 1))
  else match scan.error with
    | none => .ok scan.values
    | some error => .error error

/-! ## The code -/

/-- `RedisReadOperation`. -/
inductive RedisReadOperation
  | scan
  | type
  | ttl
  | get
  | hget
  | hgetall
  | lrange
  | smembers
  | zrange
  | xrange
  deriving DecidableEq, Repr

/-- The name of an operation. -/
def RedisReadOperation.name : RedisReadOperation → String
  | .scan => "scan"
  | .type => "type"
  | .ttl => "ttl"
  | .get => "get"
  | .hget => "hget"
  | .hgetall => "hgetall"
  | .lrange => "lrange"
  | .smembers => "smembers"
  | .zrange => "zrange"
  | .xrange => "xrange"

/-- The schemes of a Redis URL. -/
def isRedisUrl (url : String) : Bool :=
  ["redis://", "rediss://", "unix://"].any fun scheme => scheme.toList.isPrefixOf url.toList

/-- A text or `None`. -/
def optText : Option String → SqlValue
  | none => .null
  | some text => .str text

/-- The last position of `lrange` and `zrange`. -/
def rangeEnd (max_rows : ℕ) (start : ℤ) (stop : Option ℤ) : ℤ :=
  min (stop.getD (start + max_rows)) (start + max_rows)

/-- The rows of `lrange`. -/
def listRows (start : ℤ) (values : List String) : List (List SqlValue) :=
  values.mapIdx fun offset value => [.int (start + offset), .str value]

/-- The rows of `zrange`. -/
def scoreRows (values : List (String × FloatLit)) : List (List SqlValue) :=
  values.map fun e => [.str e.1, .float e.2]

/-- The columns with these names. -/
def columnsNamed (names : List String) : List ResultColumn := names.map fun name => ⟨name, name⟩

/-- The rows up to the limit as a tabular result, truncated if there are more. -/
def sendRows (s : DataSource) (names : List String) (rows : List (List SqlValue)) : List Char :=
  _fit_tabular_result s (columnsNamed names) (jsonRows (rows.take s.max_rows))
    (s.max_rows < rows.length)

/-- `_execute_redis_read(connection, operation, key, pattern, field, start, stop)`, for a connection
with this URL. `from_url` connects. -/
def _execute_redis_read (from_url : String → Except ReadError RedisClient) (s : DataSource)
    (url : String) (operation : RedisReadOperation) (key pattern field : Option String)
    (start : ℤ) (stop : Option ℤ) : Except ReadError (List Char) := do
  let url := stripped url
  if !isRedisUrl url then
    throw (.valueError "Redis data sources require a Redis URL")
  let client ← from_url url
  let count := min (s.max_rows + 1) 1000
  if operation = .scan then
    let found := pattern.getD ""
    let values ← firstValues s.max_rows (client.scan_iter (if found = "" then "*" else found) count)
    return sendRows s ["key"] (values.map fun value => [.str value])
  let key := key.getD ""
  if key = "" then
    throw (.validation ("A key is required for Redis " ++ operation.name ++ "."))
  match operation with
  | .scan => throw (.validation "The Redis read operation is not supported.")
  | .type =>
    return _fit_tabular_result s (columnsNamed ["type"]) (jsonRows [[.str (← client.type key)]])
      false
  | .ttl =>
    return _fit_tabular_result s (columnsNamed ["ttl_seconds"])
      (jsonRows [[.int (← client.ttl key)]]) false
  | .get =>
    return _fit_tabular_result s (columnsNamed ["value"])
      (jsonRows [[optText (← client.get key)]]) false
  | .hget =>
    let field := field.getD ""
    if field = "" then
      throw (.validation "A field is required for Redis hget.")
    return _fit_tabular_result s (columnsNamed ["field", "value"])
      (jsonRows [[.str field, optText (← client.hget key field)]]) false
  | .hgetall =>
    let values ← firstValues s.max_rows (client.hscan_iter key count)
    return sendRows s ["field", "value"] (values.map fun e => [.str e.1, .str e.2])
  | .lrange =>
    let values ← client.lrange key start (rangeEnd s.max_rows start stop)
    return sendRows s ["index", "value"] (listRows start values)
  | .smembers =>
    let values ← firstValues s.max_rows (client.sscan_iter key count)
    return sendRows s ["member"] (values.map fun value => [.str value])
  | .zrange =>
    let values ← client.zrange key start (rangeEnd s.max_rows start stop)
    return sendRows s ["member", "score"] (scoreRows values)
  | .xrange =>
    let values ← client.xrange key (s.max_rows + 1)
    return sendRows s ["entry_id", "fields"] (values.map fun e =>
      [.str e.1, .dict (e.2.map fun kv => (kv.1, .str kv.2))])

/-! ## What is sent of a range -/

/-- The text with the first `k` rows of a range. -/
def rangeText (s : DataSource) (names : List String) (range : List (List SqlValue)) (k : ℕ) :
    List Char :=
  dumps resultFormat (.dict (tabular s (columnsNamed names) (jsonRows (range.take k)) k
    (k < range.length)))

/-- **The first rows of a range**, up to the limit of rows, and of these the longest prefix whose
text is within the limit of bytes; the flag says whether the range has more rows than are sent. If
not even the text without rows is within the limit, it is the error. -/
def SendsFirst (s : DataSource) (names : List String) (range : List (List SqlValue))
    (text : List Char) : Prop :=
  (text = outputLimitError ∧
    ∀ k ≤ min s.max_rows range.length, s.max_bytes < size (rangeText s names range k)) ∨
  ∃ k ≤ min s.max_rows range.length,
    text = rangeText s names range k ∧ size (rangeText s names range k) ≤ s.max_bytes ∧
    ∀ j, k < j → j ≤ min s.max_rows range.length →
      s.max_bytes < size (rangeText s names range j)

section

variable {s : DataSource} {names : List String} {range : List (List SqlValue)} {n k : ℕ}

/-- The text of a prefix of what is left of a range after the limit of rows. -/
theorem prefixText_take (hk : k ≤ min s.max_rows range.length) :
    prefixText s (columnsNamed names) (jsonRows (range.take s.max_rows))
      (s.max_rows < range.length) k = rangeText s names range k := by
  have hrows : (jsonRows (range.take s.max_rows)).take k = jsonRows (range.take k) := by
    rw [jsonRows, ← List.map_take, List.take_take, Nat.min_eq_left (Nat.le_trans hk
      (Nat.min_le_left _ _))]
    rfl
  have hlength : (jsonRows (range.take s.max_rows)).length = min s.max_rows range.length := by
    rw [jsonRows, List.length_map, List.length_take]
  -- rows are missing because of either limit
  have hflag : (decide (s.max_rows < range.length) ||
      decide (k < (jsonRows (range.take s.max_rows)).length)) = decide (k < range.length) := by
    rw [hlength, ← Bool.decide_or, decide_eq_decide]
    omega
  rw [prefixText, prefixPayload, hrows, hflag, rangeText]

/-- Rows that were read beyond the limit are the first of the range. -/
theorem sendRows_take (hn : s.max_rows < n) :
    SendsFirst s names range (sendRows s names (range.take n)) := by
  have htake : (range.take n).take s.max_rows = range.take s.max_rows := by
    rw [List.take_take, Nat.min_eq_left (Nat.le_of_lt hn)]
  have hmore : decide (s.max_rows < (range.take n).length) =
      decide (s.max_rows < range.length) := by
    rw [decide_eq_decide, List.length_take]
    omega
  have hlength : (jsonRows (range.take s.max_rows)).length = min s.max_rows range.length := by
    rw [jsonRows, List.length_map, List.length_take]
  rw [sendRows, htake, hmore]
  rcases sends_longest_prefix s (columnsNamed names) (jsonRows (range.take s.max_rows))
    (s.max_rows < range.length) with ⟨herror, hlarge⟩ | ⟨k, hk, hfit, hsize, hlarge⟩
  · refine .inl ⟨herror, fun k hk => ?_⟩
    rw [← prefixText_take hk]
    exact hlarge k (hlength ▸ hk)
  · rw [hlength] at hk
    rw [prefixText_take hk] at hfit hsize
    refine .inr ⟨k, hk, hfit, hsize, fun j hj hj' => ?_⟩
    rw [← prefixText_take hj']
    exact hlarge j hj (hlength ▸ hj')

end

/-! ## The two range reads -/

section

variable {start : ℤ}

/-- What the server is asked for: a prefix of the range that goes beyond the limit if the range
does, and has one element more at most unless the last position counts from the end. -/
theorem rangeOf_rangeEnd {α : Type} (m : ℕ) (hstart : 0 ≤ start) (stop : Option ℤ) (xs : List α) :
    ∃ n, m < n ∧ rangeOf xs start (rangeEnd m start stop) = (rangeFrom xs start stop).take n ∧
      ((∀ i ∈ stop, 0 ≤ i) → n = m + 1) := by
  cases stop with
  | none =>
    refine ⟨m + 1, Nat.lt_succ_self m, ?_, fun _ => rfl⟩
    have hmin : min (start + m) (start + m) = start + m := by omega
    rw [rangeEnd, Option.getD_none, hmin, rangeOf_add hstart]
  | some stop =>
    rw [rangeEnd, Option.getD_some, rangeFrom]
    by_cases hstop : 0 ≤ stop
    · exact ⟨m + 1, Nat.lt_succ_self m, rangeOf_min hstart hstop xs m, fun _ => rfl⟩
    · -- a position that counts from the end is below every page's
      have hmin : min stop (start + m) = stop := by omega
      refine ⟨m + 1 + (rangeOf xs start stop).length, by omega, ?_, fun h => ?_⟩
      · rw [hmin, List.take_of_length_le (by omega)]
      · exact absurd (h stop rfl) hstop

theorem take_listRows (start : ℤ) (values : List String) (n : ℕ) :
    listRows start (values.take n) = (listRows start values).take n := by
  apply List.ext_getElem?
  intro i
  rw [listRows, listRows, List.getElem?_mapIdx, List.getElem?_take, List.getElem?_take,
    List.getElem?_mapIdx]
  split
  · rfl
  · rfl

theorem take_scoreRows (values : List (String × FloatLit)) (n : ℕ) :
    scoreRows (values.take n) = (scoreRows values).take n := List.map_take

end

section

variable {from_url : String → Except ReadError RedisClient} {s : DataSource} {url key : String}
  {pattern field : Option String} {start : ℤ} {stop : Option ℤ} {client : RedisClient}

theorem execute_lrange (hurl : isRedisUrl (stripped url) = true)
    (hclient : from_url (stripped url) = .ok client) (hkey : key ≠ "") {values : List String}
    (hvalues : client.lrange key start (rangeEnd s.max_rows start stop) = .ok values) :
    _execute_redis_read from_url s url .lrange (some key) pattern field start stop =
      .ok (sendRows s ["index", "value"] (listRows start values)) := by
  simp only [_execute_redis_read, hurl, hclient, Option.getD_some, if_neg hkey]
  show (client.lrange key start (rangeEnd s.max_rows start stop) >>= fun values =>
    pure (sendRows s ["index", "value"] (listRows start values))) = _
  rw [hvalues]
  rfl

theorem execute_zrange (hurl : isRedisUrl (stripped url) = true)
    (hclient : from_url (stripped url) = .ok client) (hkey : key ≠ "")
    {values : List (String × FloatLit)}
    (hvalues : client.zrange key start (rangeEnd s.max_rows start stop) = .ok values) :
    _execute_redis_read from_url s url .zrange (some key) pattern field start stop =
      .ok (sendRows s ["member", "score"] (scoreRows values)) := by
  simp only [_execute_redis_read, hurl, hclient, Option.getD_some, if_neg hkey]
  show (client.zrange key start (rangeEnd s.max_rows start stop) >>= fun values =>
    pure (sendRows s ["member", "score"] (scoreRows values))) = _
  rw [hvalues]
  rfl

end

/-- **The range reads send the first rows of the requested range.** For every connection with a
Redis URL, every key, every first position that is not negative and every last position: over a
list or a sorted set the operation returns the text of the first rows of the range, and unless the
last position counts from the end, the range asked for has at most one element more than the limit
of rows. -/
theorem range_reads_send_first (from_url : String → Except ReadError RedisClient) (s : DataSource)
    (url key : String) (pattern field : Option String) (start : ℤ) (stop : Option ℤ)
    (client : RedisClient) (hurl : isRedisUrl (stripped url) = true)
    (hclient : from_url (stripped url) = .ok client) (hkey : key ≠ "") (hstart : 0 ≤ start) :
    (∀ xs : List String, (∀ a b, client.lrange key a b = .ok (rangeOf xs a b)) →
      (∃ text, _execute_redis_read from_url s url .lrange (some key) pattern field start stop =
          .ok text ∧
        SendsFirst s ["index", "value"] (listRows start (rangeFrom xs start stop)) text) ∧
      ((∀ i ∈ stop, 0 ≤ i) →
        (rangeOf xs start (rangeEnd s.max_rows start stop)).length ≤ s.max_rows + 1)) ∧
    (∀ xs : List (String × FloatLit), (∀ a b, client.zrange key a b = .ok (rangeOf xs a b)) →
      (∃ text, _execute_redis_read from_url s url .zrange (some key) pattern field start stop =
          .ok text ∧
        SendsFirst s ["member", "score"] (scoreRows (rangeFrom xs start stop)) text) ∧
      ((∀ i ∈ stop, 0 ≤ i) →
        (rangeOf xs start (rangeEnd s.max_rows start stop)).length ≤ s.max_rows + 1)) := by
  constructor
  · intro xs hxs
    obtain ⟨n, hn, hrange, hasked⟩ := rangeOf_rangeEnd s.max_rows hstart stop xs
    refine ⟨⟨_, execute_lrange hurl hclient hkey (hxs _ _), ?_⟩, fun hstop => ?_⟩
    · rw [hrange, take_listRows]
      exact sendRows_take hn
    · rw [hrange, hasked hstop, List.length_take]
      exact Nat.min_le_left _ _
  · intro xs hxs
    obtain ⟨n, hn, hrange, hasked⟩ := rangeOf_rangeEnd s.max_rows hstart stop xs
    refine ⟨⟨_, execute_zrange hurl hclient hkey (hxs _ _), ?_⟩, fun hstop => ?_⟩
    · rw [hrange, take_scoreRows]
      exact sendRows_take hn
    · rw [hrange, hasked hstop, List.length_take]
      exact Nat.min_le_left _ _

/-- A client of a keyspace with one list and one sorted set. -/
def shelf (xs : List String) (zs : List (String × FloatLit)) : RedisClient where
  scan_iter _ _ := ⟨["k", "z"], none⟩
  type key := .ok (if key = "k" then "list" else "zset")
  ttl _ := .ok (-1)
  get _ := .error (.client "ResponseError")
  hget _ _ := .error (.client "ResponseError")
  hscan_iter _ _ := ⟨[], some (.client "ResponseError")⟩
  lrange key start stop := if key = "k" then .ok (rangeOf xs start stop)
    else .error (.client "ResponseError")
  sscan_iter _ _ := ⟨[], some (.client "ResponseError")⟩
  zrange key start stop := if key = "z" then .ok (rangeOf zs start stop)
    else .error (.client "ResponseError")
  xrange _ _ := .error (.client "ResponseError")

/-- The connection of the shelf. -/
def cache : DataSource := ⟨"cache", "redis", 1, 1024⟩

/-- The rest of a list of three, one row at most. -/
theorem shelf_range_read :
    (∃ text, _execute_redis_read (fun _ => .ok (shelf ["a", "b", "c"] [])) cache "redis://cache"
        .lrange (some "k") none none 1 none = .ok text ∧
      SendsFirst cache ["index", "value"] (listRows 1 (rangeFrom ["a", "b", "c"] 1 none)) text) ∧
    ((∀ i ∈ (none : Option ℤ), 0 ≤ i) →
      (rangeOf ["a", "b", "c"] 1 (rangeEnd cache.max_rows 1 none)).length ≤ cache.max_rows + 1) :=
  (range_reads_send_first (fun _ => .ok (shelf ["a", "b", "c"] [])) cache "redis://cache" "k" none
    none 1 none (shelf ["a", "b", "c"] []) (by decide) rfl (by decide) (by decide)).1
    ["a", "b", "c"] (fun _ _ => rfl)

/-! ## Values above the limit -/

/-- No text has fewer bytes than characters. -/
theorem length_le_size (text : List Char) : text.length ≤ size text := by
  rw [size, encode]
  induction text with
  | nil => exact Nat.le_refl _
  | cons ch text ih =>
    rw [List.length_cons, List.flatMap_cons, List.length_append]
    have hch : 0 < (String.utf8EncodeChar ch).length := by
      rw [String.length_utf8EncodeChar]
      exact Char.utf8Size_pos ch
    omega

/-- Nor has the literal of a string fewer characters than the string. -/
theorem length_le_quote (ensureAscii : Bool) (cs : List Char) :
    cs.length ≤ (quote ensureAscii cs).length := by
  have hflat : cs.length ≤ (cs.flatMap (escapeChar ensureAscii)).length := by
    induction cs with
    | nil => exact Nat.le_refl _
    | cons ch cs ih =>
      have hch : escapeChar ensureAscii ch ≠ [] := by
        unfold escapeChar
        split_ifs <;> simp [unicodeEscape]
      have hpos := List.length_pos_of_ne_nil hch
      rw [List.length_cons, List.flatMap_cons, List.length_append]
      omega
  rw [quote, List.cons_append, List.length_cons, List.length_append]
  omega

/-- The text of a list is as long as that of each of its elements. -/
theorem length_le_dumps_list {f : Format} {x : Json} {xs : List Json} (hx : x ∈ xs) :
    (dumps f x).length ≤ (dumps f (.list xs)).length := by
  have hitems : ∀ ys : List Json, x ∈ ys → (dumps f x).length ≤ (dumpsItems f ys).length := by
    intro ys hys
    induction ys with
    | nil => exact nomatch hys
    | cons y ys ih =>
      rw [dumpsItems, List.length_append, List.length_append]
      rcases List.mem_cons.mp hys with rfl | hys
      · omega
      · have := ih hys
        omega
  cases xs with
  | nil => exact nomatch hx
  | cons y ys =>
    rw [dumps, List.length_cons, List.length_append]
    rcases List.mem_cons.mp hx with rfl | hys
    · omega
    · have := hitems ys hys
      omega

/-- A row with a text above the limit is in no text within the limit. -/
theorem rangeText_above_limit (s : DataSource) (names : List String) {value : String}
    {row : List SqlValue} {range : List (List SqlValue)} (hvalue : .str value ∈ jsonItems row)
    (hlong : s.max_bytes < value.toList.length) {k : ℕ} (hk : 0 < k) :
    s.max_bytes < size (rangeText s names (row :: range) k) := by
  have hrow : Json.list (jsonItems row) ∈ jsonRows ((row :: range).take k) := by
    obtain ⟨j, rfl⟩ := Nat.exists_eq_succ_of_ne_zero (Nat.pos_iff_ne_zero.mp hk)
    exact List.mem_cons_self
  have htext : (dumps resultFormat (.list (jsonRows ((row :: range).take k)))).length ≤
      (rangeText s names (row :: range) k).length := by
    simp only [rangeText, tabular, dumps, dumpsMembers, List.length_append, List.length_cons]
    omega
  calc s.max_bytes < value.toList.length := hlong
    _ ≤ (dumps resultFormat (.str value)).length := length_le_quote _ _
    _ ≤ (dumps resultFormat (.list (jsonItems row))).length := length_le_dumps_list hvalue
    _ ≤ (dumps resultFormat (.list (jsonRows ((row :: range).take k)))).length :=
      length_le_dumps_list hrow
    _ ≤ (rangeText s names (row :: range) k).length := htext
    _ ≤ size (rangeText s names (row :: range) k) := length_le_size _

/-- A value of more bytes than the limit is not sent, although one row is allowed. And for a last
position that counts from the end the whole list is asked for. -/
theorem long_value_and_long_range :
    (∀ text, _execute_redis_read
        (fun _ => .ok (shelf [String.ofList (List.replicate 1025 'x')] [])) cache "redis://cache"
        .lrange (some "k") none none 0 none = .ok text →
      text ≠ rangeText cache ["index", "value"]
        (listRows 0 (rangeFrom [String.ofList (List.replicate 1025 'x')] 0 none)) 1) ∧
    ¬ (rangeOf ["a", "b", "c"] 0 (rangeEnd cache.max_rows 0 (some (-1)))).length ≤
      cache.max_rows + 1 := by
  refine ⟨fun text htext hfirst => ?_, by decide⟩
  rw [execute_lrange (by decide) rfl (by decide) rfl] at htext
  have hlong : cache.max_bytes < size (rangeText cache ["index", "value"]
      (listRows 0 (rangeFrom [String.ofList (List.replicate 1025 'x')] 0 none)) 1) := by
    refine rangeText_above_limit cache _ (List.mem_cons_of_mem _ List.mem_cons_self) ?_
      Nat.one_pos
    rw [String.toList_ofList, List.length_replicate]
    decide
  obtain ⟨n, hn, hrange, -⟩ := rangeOf_rangeEnd cache.max_rows
    (Int.le_refl 0) none [String.ofList (List.replicate 1025 'x')]
  have hsent : size text ≤ cache.max_bytes := by
    rw [hrange, take_listRows, Except.ok.injEq] at htext
    rcases htext ▸ sendRows_take hn with ⟨herror, -⟩ | ⟨k, -, hk, hsize, -⟩
    · rw [herror]
      decide
    · rw [hk]
      exact hsize
  rw [hfirst] at hsent
  exact absurd hlong (Nat.not_lt.mpr hsent)

end OpenLaunch.DataSources
