import OpenLaunch.Chats.HistoryForest

/-! # The branch of a message

`get_message_list` follows the `parentId` links from a message to its root and returns the messages
it meets, root first. It remembers the `id` fields it has met, and stops at one it meets again; a
message without an `id` is not remembered, so a cycle of such messages is followed for ever. The
model gives the loop a number of iterations and returns `none` when they run out. -/

namespace OpenLaunch.Chats

open Python Forest

variable {messages : Dict String Message} {c p : String} {l : List String} {m : Message}

/-! ## The loop -/

/-- `messages_map.get(v)`, which raises for an unhashable `v`. -/
def lookup (messages : Dict String Message) (v : Json) : Except PyErr (Option Message) := do
  let k ← v.key
  match k with
  | .str s => return messages.get? s
  | _ => return none

/-- `messages_map.get(parent_id) if parent_id else None`. -/
def lookupParent (messages : Dict String Message) (message : Message) :
    Except PyErr (Option Message) :=
  let parent_id := message.field "parentId"
  if parent_id.truthy then lookup messages parent_id else return none

/-- `visited_message_ids.add(message_id)`, unless the id is `None`. -/
def visit (k : Json.Key) (visited : List Json.Key) : List Json.Key :=
  if k = .none then visited else k :: visited

/-- `while current_message: …`, for at most `n` iterations; an empty message is falsy. -/
def collect (messages : Dict String Message) :
    ℕ → Option Message → List Json.Key → List Message → Option (Except PyErr (List Message))
  | 0, _, _, _ => none
  | _ + 1, none, _, message_list => some (.ok message_list)
  | n + 1, some message, visited, message_list =>
    if message = [] then some (.ok message_list)
    else
      match (message.field "id").key with
      | .error e => some (.error e)
      | .ok k =>
        if k ∈ visited then some (.ok message_list)
        else
          match lookupParent messages message with
          | .error e => some (.error e)
          | .ok next => collect messages n next (visit k visited) (message_list ++ [message])

/-- `get_message_list`: the branch, or the exception raised; `none` when `fuel` iterations are not
enough. An absent map is the empty one. -/
def get_message_list (fuel : ℕ) (messages_map : Dict String Message) (message_id : Json) :
    Option (Except PyErr (List Message)) :=
  if messages_map.entries = [] then some (.ok [])
  else
    match lookup messages_map message_id with
    | .error e => some (.error e)
    | .ok none => some (.ok [])
    | .ok (some message) =>
      if message = [] then some (.ok [])
      else (collect messages_map fuel (some message) [] []).map (Except.map List.reverse)

/-! ## What it is for -/

/-- The parent of a message, if it is in the map. -/
def parentIn (messages : Dict String Message) (c : String) : Option String :=
  (parentOf messages c).filter fun p => p ∈ messages

/-- `xs` is the chain from the root to `message_id`, each message the parent of the next. -/
def IsChainTo (messages : Dict String Message) (message_id : Json) (xs : List Message) : Prop :=
  ((∀ c ∈ messages, message_id ≠ .str c) ∧ xs = []) ∨
    ∃ c ∈ messages, ∃ l, message_id = .str c ∧ Ancestors (parentIn messages) c l ∧
      (c :: l).map messages.get? = xs.reverse.map some

/-- The function returns or raises after finitely many iterations. -/
def ListTerminates (messages : Dict String Message) (message_id : Json) : Prop :=
  ∃ fuel, get_message_list fuel messages message_id ≠ none

/-- **It terminates, and on an acyclic map it returns the chain.** -/
def ListsBranch (messages : Dict String Message) (message_id : Json) : Prop :=
  ListTerminates messages message_id ∧
    (Acyclic (parentIn messages) → ∃ fuel xs,
      get_message_list fuel messages message_id = some (.ok xs) ∧
        IsChainTo messages message_id xs)

/-! ## When it does -/

/-- The key of the id of a message; without an id it is the key of `None`. -/
def idKey (messages : Dict String Message) (c : String) : Except PyErr Json.Key :=
  (((messages.get? c).getD []).field "id").key

/-- Two messages have the same id. -/
def SameId (messages : Dict String Message) (a b : String) : Prop :=
  ∃ k ≠ Json.Key.none, idKey messages a = .ok k ∧ idKey messages b = .ok k

/-- The parent the loop goes on with: an empty id or an empty message ends it. -/
def followed (messages : Dict String Message) (c : String) : Option String :=
  (parentIn messages c).filter fun p => p ≠ "" ∧ messages.get? p ≠ some []

/-- **The links lead round a cycle, and no id is met twice**, so the messages of the cycle have
none. -/
structure LoopsForever (messages : Dict String Message) (c : String) : Prop where
  forever : ∀ n, (walk (followed messages) c n).isSome
  hashable : ∀ n x, walk (followed messages) c n = some x → ∃ k, idKey messages x = .ok k
  unrepeated : ∀ i j x y, i < j → walk (followed messages) c i = some x →
    walk (followed messages) c j = some y → ¬ SameId messages x y

/-- A message the loop reads without stopping: it is not empty, its id is hashable, and so is its
parent's id, unless it is falsy. -/
def ReadsOn (messages : Dict String Message) (c : String) : Prop :=
  messages.get? c ≠ some [] ∧ (∃ k, idKey messages c = .ok k) ∧
    ∃ r, lookupParent messages ((messages.get? c).getD []) = .ok r

/-- The messages of a branch are read without stopping: no parent has an empty id, and no id is
met twice. -/
structure PlainBranch (messages : Dict String Message) (branch : List String) : Prop where
  readsOn : ∀ x ∈ branch, ReadsOn messages x
  nonempty : ∀ x ∈ branch.tail, x ≠ ""
  unrepeated : branch.Pairwise fun a b => ¬ SameId messages a b

/-- The condition under which the branch is listed. -/
def BranchListable (messages : Dict String Message) (message_id : Json) : Prop :=
  (∀ c ∈ messages, message_id = .str c → ¬ LoopsForever messages c) ∧
    (Acyclic (parentIn messages) →
      (∀ c ∈ messages, message_id = .str c → ∀ l, Ancestors (parentIn messages) c l →
        PlainBranch messages (c :: l)) ∧
      (messages.entries = [] ∨ ∃ k, message_id.key = .ok k))

/-! ## One iteration -/

/-- The ids remembered once the messages of these keys have been met, the last one first. -/
def visitedIds (messages : Dict String Message) : List String → List Json.Key
  | [] => []
  | c :: earlier =>
    match idKey messages c with
    | .ok k => visit k (visitedIds messages earlier)
    | .error _ => visitedIds messages earlier

theorem mem_visit {k k' : Json.Key} {visited : List Json.Key} :
    k' ∈ visit k visited ↔ (k' = k ∧ k ≠ .none) ∨ k' ∈ visited := by
  unfold visit
  split <;> simp_all

/-- An id is remembered if an earlier message has it. -/
theorem mem_visitedIds {earlier : List String} {k : Json.Key} (hk : idKey messages c = .ok k) :
    k ∈ visitedIds messages earlier ↔ ∃ e ∈ earlier, SameId messages e c := by
  induction earlier with
  | nil => simp [visitedIds]
  | cons e earlier ih =>
    have hsame : SameId messages e c ↔ idKey messages e = .ok k ∧ k ≠ .none := by
      constructor
      · rintro ⟨k', hne, he, hc⟩
        rw [hk] at hc
        cases hc
        exact ⟨he, hne⟩
      · rintro ⟨he, hne⟩
        exact ⟨k, hne, he, hk⟩
    rw [List.exists_mem_cons_iff, hsame, ← ih, visitedIds]
    cases he : idKey messages e with
    | ok k' =>
      simp only [mem_visit, Except.ok.injEq]
      refine or_congr ?_ Iff.rfl
      exact ⟨fun ⟨hkk, hne⟩ => ⟨hkk.symm, hkk ▸ hne⟩, fun ⟨hkk, hne⟩ => ⟨hkk.symm, hkk ▸ hne⟩⟩
    | error e' => simp

theorem idKey_of_get? (hm : messages.get? c = some m) :
    idKey messages c = (m.field "id").key := by rw [idKey, hm]; rfl

theorem parentIn_eq_some : parentIn messages c = some p ↔
    ∃ m, messages.get? c = some m ∧ m.field "parentId" = .str p ∧ p ∈ messages := by
  unfold parentIn
  rw [Option.filter_eq_some_iff, parentOf_eq_some]
  simp only [decide_eq_true_eq]
  constructor
  · rintro ⟨⟨m, hm, hf⟩, hp⟩
    exact ⟨m, hm, hf, hp⟩
  · rintro ⟨m, hm, hf, hp⟩
    exact ⟨⟨m, hm, hf⟩, hp⟩

/-- **The parent the loop looks up**: the parent in the map, unless its id is empty. -/
theorem lookupParent_eq (hm : messages.get? c = some m) {r : Option Message}
    (h : lookupParent messages m = .ok r) :
    r = ((parentIn messages c).filter fun p => p ≠ "").bind messages.get? := by
  have hparent : parentIn messages c = (m.field "parentId").str?.filter fun p => p ∈ messages := by
    rw [parentIn, parentOf_of_get? hm]
  rw [hparent]
  unfold lookupParent lookup at h
  dsimp only at h
  cases hf : m.field "parentId" with
  | str p =>
    rw [hf] at h
    by_cases hp : p = ""
    · subst hp
      cases h
      by_cases hmem : "" ∈ messages <;> simp [Json.str?, Option.filter, hmem]
    · have hget : r = messages.get? p := by
        simpa [hp, bind, Except.bind, pure, Except.pure] using h.symm
      rw [hget]
      by_cases hmem : p ∈ messages
      · simp [Json.str?, Option.filter, hmem, hp]
      · simp [Json.str?, Option.filter, hmem, Dict.get?_eq_none_iff.mpr hmem]
  | null | bool | int | float | list | dict =>
    rw [hf] at h
    split at h
    · simp only [Json.key, bind, Except.bind, pure, Except.pure] at h
      cases h <;> rfl
    · cases h
      rfl

/-- An iteration that goes on. -/
theorem collect_succ {k : Json.Key} {next : Option Message} {visited : List Json.Key}
    (hm : messages.get? c = some m) (hne : m ≠ []) (hk : idKey messages c = .ok k)
    (hnew : k ∉ visited) (hnext : lookupParent messages m = .ok next) (n : ℕ)
    (message_list : List Message) :
    collect messages (n + 1) (messages.get? c) visited message_list =
      collect messages n next (visit k visited) (message_list ++ [m]) := by
  rw [idKey_of_get? hm] at hk
  rw [hm, collect, if_neg hne, hk]
  dsimp only
  rw [if_neg hnew, hnext]

/-- An iteration that stops or raises: nothing is added. -/
theorem collect_stops (hc : c ∈ messages) {earlier : List String}
    (h : ¬ (ReadsOn messages c ∧ ∀ e ∈ earlier, ¬ SameId messages e c))
    (message_list : List Message) :
    ∃ r, (∀ n, collect messages (n + 1) (messages.get? c) (visitedIds messages earlier)
        message_list = some r) ∧ ∀ xs, r = .ok xs → xs = message_list := by
  obtain ⟨m, hm⟩ := Dict.mem_iff_exists.mp hc
  simp only [hm, collect]
  by_cases hne : m = []
  · simp only [if_pos hne]
    exact ⟨_, fun _ => rfl, fun xs hxs => (Except.ok.inj hxs).symm⟩
  simp only [if_neg hne]
  cases hk : (m.field "id").key with
  | error e => exact ⟨_, fun _ => rfl, fun xs hxs => by cases hxs⟩
  | ok k =>
    have hid : idKey messages c = .ok k := by rw [idKey_of_get? hm, hk]
    dsimp only
    by_cases hvisited : k ∈ visitedIds messages earlier
    · simp only [if_pos hvisited]
      exact ⟨_, fun _ => rfl, fun xs hxs => (Except.ok.inj hxs).symm⟩
    simp only [if_neg hvisited]
    cases hnext : lookupParent messages m with
    | error e => exact ⟨_, fun _ => rfl, fun xs hxs => by cases hxs⟩
    | ok next =>
      refine absurd ⟨⟨?_, ⟨k, hid⟩, ⟨next, ?_⟩⟩, ?_⟩ h
      · rw [hm]
        exact fun heq => hne (Option.some.inj heq)
      · rw [hm]
        exact hnext
      · intro e he hsame
        exact hvisited ((mem_visitedIds hid).mpr ⟨e, he, hsame⟩)

/-- An iteration that reads on. -/
theorem collect_readsOn (hm : messages.get? c = some m) {earlier : List String}
    (h : ReadsOn messages c) (hnew : ∀ e ∈ earlier, ¬ SameId messages e c) (n : ℕ)
    (message_list : List Message) :
    collect messages (n + 1) (messages.get? c) (visitedIds messages earlier) message_list =
      collect messages n (((parentIn messages c).filter fun p => p ≠ "").bind messages.get?)
        (visitedIds messages (c :: earlier)) (message_list ++ [m]) := by
  obtain ⟨hne, ⟨k, hk⟩, r, hr⟩ := h
  rw [hm] at hne hr
  have hnot : k ∉ visitedIds messages earlier := by
    intro hmem
    obtain ⟨e, he, hsame⟩ := (mem_visitedIds hk).mp hmem
    exact hnew e he hsame
  rw [collect_succ hm (fun heq => hne (by rw [heq])) hk hnot hr, lookupParent_eq hm hr,
    visitedIds, hk]

end OpenLaunch.Chats
