import OpenLaunch.Chats.MessageList

/-! # When the branch of a message is listed

On an acyclic map the loop of `get_message_list` goes through the ancestors of the message; it
reaches the root exactly when the branch is plain. On any map it fails to end exactly when the links
lead round a cycle on which no id is met twice. -/

namespace OpenLaunch.Chats

open Python Forest

variable {messages : Dict String Message} {c : String} {l : List String}

/-! ## Acyclic maps -/

/-- A branch that comes after some messages is plain, and repeats none of their ids. -/
structure PlainAfter (messages : Dict String Message) (earlier branch : List String) : Prop where
  plain : PlainBranch messages branch
  new : ∀ e ∈ earlier, ∀ x ∈ branch, ¬ SameId messages e x

/-- The messages of a branch that is given by its ids. -/
def branchMessages (messages : Dict String Message) (branch : List String) : List Message :=
  branch.filterMap messages.get?

theorem plainAfter_singleton {earlier : List String} :
    PlainAfter messages earlier [c] ↔
      ReadsOn messages c ∧ ∀ e ∈ earlier, ¬ SameId messages e c := by
  constructor
  · rintro ⟨⟨hreads, -, -⟩, hnew⟩
    exact ⟨hreads c (by simp), fun e he => hnew e he c (by simp)⟩
  · rintro ⟨hreads, hnew⟩
    refine ⟨⟨by simpa using hreads, by simp, by simp⟩, ?_⟩
    intro e he x hx
    rw [List.mem_singleton.mp hx]
    exact hnew e he

/-- A longer branch is plain if its first message is read on and the rest is plain after it. -/
theorem plainAfter_cons {earlier : List String} {p : String} :
    PlainAfter messages earlier (c :: p :: l) ↔
      (ReadsOn messages c ∧ ∀ e ∈ earlier, ¬ SameId messages e c) ∧ p ≠ "" ∧
        PlainAfter messages (c :: earlier) (p :: l) := by
  constructor
  · rintro ⟨⟨hreads, hnonempty, hpair⟩, hnew⟩
    rw [List.pairwise_cons] at hpair
    refine ⟨⟨hreads c (by simp), fun e he => hnew e he c (by simp)⟩, hnonempty p (by simp),
      ⟨⟨fun x hx => hreads x (by simp [hx]), fun x hx => hnonempty x ?_, hpair.2⟩, ?_⟩⟩
    · exact List.mem_cons_of_mem p hx
    · intro e he x hx
      rcases List.mem_cons.mp he with rfl | he
      · exact hpair.1 x hx
      · exact hnew e he x (by simp [hx])
  · rintro ⟨⟨hreads, hnew⟩, hp, ⟨⟨hreads', hnonempty, hpair⟩, hnew'⟩⟩
    refine ⟨⟨List.forall_mem_cons.mpr ⟨hreads, hreads'⟩, ?_, ?_⟩, ?_⟩
    · exact List.forall_mem_cons.mpr ⟨hp, hnonempty⟩
    · exact List.pairwise_cons.mpr ⟨hnew' c (by simp), hpair⟩
    · intro e he x hx
      rcases List.mem_cons.mp hx with rfl | hx
      · exact hnew e he
      · exact hnew' e (by simp [he]) x hx

/-- **The loop on a branch**: it ends, with the whole branch if that is plain and short of it
otherwise. -/
theorem collect_ancestors (hl : Ancestors (parentIn messages) c l) (hc : c ∈ messages)
    (earlier : List String) (message_list : List Message) :
    ∃ r, (∀ n, collect messages (n + l.length + 2) (messages.get? c)
        (visitedIds messages earlier) message_list = some r) ∧
      (PlainAfter messages earlier (c :: l) →
        r = .ok (message_list ++ branchMessages messages (c :: l))) ∧
      (¬ PlainAfter messages earlier (c :: l) → ∀ xs, r = .ok xs →
        xs.length < message_list.length + (c :: l).length) := by
  induction hl generalizing earlier message_list with
  | @root c hroot =>
    obtain ⟨m, hm⟩ := Dict.mem_iff_exists.mp hc
    rw [plainAfter_singleton]
    by_cases hreads : ReadsOn messages c ∧ ∀ e ∈ earlier, ¬ SameId messages e c
    · refine ⟨.ok (message_list ++ [m]), fun n => ?_, fun _ => ?_, fun h => absurd hreads h⟩
      · rw [collect_readsOn hm hreads.1 hreads.2, hroot]
        rfl
      · simp [branchMessages, hm]
    · obtain ⟨r, hr, hshort⟩ := collect_stops hc hreads message_list
      refine ⟨r, fun n => hr _, fun h => absurd h hreads, fun _ xs hxs => ?_⟩
      rw [hshort xs hxs]
      simp
  | @step c p l hp hl ih =>
    obtain ⟨m, hm⟩ := Dict.mem_iff_exists.mp hc
    obtain ⟨-, -, -, hpmem⟩ := parentIn_eq_some.mp hp
    rw [plainAfter_cons]
    by_cases hreads : ReadsOn messages c ∧ ∀ e ∈ earlier, ¬ SameId messages e c
    · have hnext := collect_readsOn hm hreads.1 hreads.2
      rw [hp] at hnext
      by_cases hempty : p = ""
      · -- an empty parent id is not followed
        refine ⟨.ok (message_list ++ [m]), fun n => ?_, fun h => absurd hempty h.2.1,
          fun _ xs hxs => ?_⟩
        · rw [hempty] at hnext
          exact hnext _ _
        · rw [← Except.ok.inj hxs]
          simp
      · have hfilter : (Option.filter (fun p => decide (p ≠ "")) (some p)) = some p := by
          simp [Option.filter, hempty]
        rw [hfilter] at hnext
        obtain ⟨r, hr, hplain, hshort⟩ := ih hpmem (c :: earlier) (message_list ++ [m])
        refine ⟨r, fun n => (hnext _ _).trans (hr n), fun h => ?_, fun h xs hxs => ?_⟩
        · rw [hplain h.2.2, List.append_assoc]
          simp [branchMessages, hm]
        · have hlt := hshort (fun hp' => h ⟨hreads, hempty, hp'⟩) xs hxs
          simp only [List.length_append, List.length_cons, List.length_nil] at hlt ⊢
          omega
    · obtain ⟨r, hr, hshort⟩ := collect_stops hc hreads message_list
      refine ⟨r, fun n => hr _, fun h => absurd h.1 hreads, fun _ xs hxs => ?_⟩
      rw [hshort xs hxs]
      simp

/-! ## Cycles -/

theorem followed_eq_some {p : String} : followed messages c = some p ↔
    parentIn messages c = some p ∧ p ≠ "" ∧ messages.get? p ≠ some [] := by
  unfold followed
  rw [Option.filter_eq_some_iff]
  simp

/-- A message whose parent is followed is read on, if its id is hashable. -/
theorem readsOn_of_followed {p : String} (hp : followed messages c = some p) {k : Json.Key}
    (hk : idKey messages c = .ok k) : ReadsOn messages c := by
  obtain ⟨hparent, hne, -⟩ := followed_eq_some.mp hp
  obtain ⟨m, hm, hf, -⟩ := parentIn_eq_some.mp hparent
  refine ⟨?_, ⟨k, hk⟩, messages.get? p, ?_⟩
  · rw [hm]
    rintro heq
    cases Option.some.inj heq
    cases hf
  · rw [hm]
    simp [lookupParent, lookup, hf, hne, bind, Except.bind, pure, Except.pure]

/-- **Round a cycle without ids the loop never ends.** -/
theorem collect_of_loopsForever (h : LoopsForever messages c) (n i : ℕ) {x : String}
    (hx : walk (followed messages) c i = some x) {earlier : List String}
    (hearlier : ∀ e ∈ earlier, ∃ j < i, walk (followed messages) c j = some e)
    (message_list : List Message) :
    collect messages n (messages.get? x) (visitedIds messages earlier) message_list = none := by
  induction n generalizing i x earlier message_list with
  | zero => rfl
  | succ n ih =>
    obtain ⟨p, hp⟩ := Option.isSome_iff_exists.mp (h.forever (i + 1))
    have hfollow : followed messages x = some p := by
      rw [walk_succ, hx] at hp
      exact hp
    obtain ⟨k, hk⟩ := h.hashable i x hx
    obtain ⟨hparent, hne, -⟩ := followed_eq_some.mp hfollow
    obtain ⟨m, hm, -⟩ := parentIn_eq_some.mp hparent
    have hnew : ∀ e ∈ earlier, ¬ SameId messages e x := by
      intro e he
      obtain ⟨j, hj, hwalk⟩ := hearlier e he
      exact h.unrepeated j i e x hj hwalk hx
    rw [collect_readsOn hm (readsOn_of_followed hfollow hk) hnew, hparent]
    have hfilter : (Option.filter (fun p => decide (p ≠ "")) (some p)) = some p := by
      simp [Option.filter, hne]
    rw [hfilter]
    refine ih (i + 1) hp ?_ _
    intro e he
    rcases List.mem_cons.mp he with rfl | he
    · exact ⟨i, i.lt_succ_self, hx⟩
    · obtain ⟨j, hj, hwalk⟩ := hearlier e he
      exact ⟨j, by omega, hwalk⟩

/-- Where the loop does not end, a message is read on. -/
theorem readsOn_of_collect_none (hc : c ∈ messages) {earlier : List String}
    {message_list : List Message}
    (h : ∀ n, collect messages n (messages.get? c) (visitedIds messages earlier) message_list =
      none) : ReadsOn messages c ∧ ∀ e ∈ earlier, ¬ SameId messages e c := by
  by_contra hstop
  obtain ⟨r, hr, -⟩ := collect_stops hc hstop message_list
  have hone := h 1
  rw [hr 0] at hone
  cases hone

/-- Where the loop does not end, it gets as far as one likes. -/
theorem reach_of_collect_none (hc : c ∈ messages)
    (h : ∀ n, collect messages n (messages.get? c) [] [] = none) (i : ℕ) :
    ∃ x earlier message_list, x ∈ messages ∧ walk (followed messages) c i = some x ∧
      (∀ j < i, ∀ y, walk (followed messages) c j = some y → y ∈ earlier) ∧
      ∀ n, collect messages n (messages.get? x) (visitedIds messages earlier) message_list =
        none := by
  induction i with
  | zero => exact ⟨c, [], [], hc, rfl, fun j hj => absurd hj (Nat.not_lt_zero j), h⟩
  | succ i ih =>
    obtain ⟨x, earlier, message_list, hxmem, hx, hearlier, hnone⟩ := ih
    obtain ⟨m, hm⟩ := Dict.mem_iff_exists.mp hxmem
    have hreads := readsOn_of_collect_none hxmem hnone
    have hnext := fun n => (collect_readsOn hm hreads.1 hreads.2 n message_list).symm.trans
      (hnone (n + 1))
    cases hp : (parentIn messages x).filter fun p => p ≠ "" with
    | none =>
      rw [hp] at hnext
      exact nomatch hnext 1
    | some p =>
      rw [hp] at hnext
      obtain ⟨hparent, hne⟩ := Option.filter_eq_some_iff.mp hp
      obtain ⟨-, -, -, hpmem⟩ := parentIn_eq_some.mp hparent
      have hempty : messages.get? p ≠ some [] := by
        intro heq
        have hone := hnext 1
        rw [Option.bind_some, heq, collect, if_pos rfl] at hone
        cases hone
      have hfollow : followed messages x = some p :=
        followed_eq_some.mpr ⟨hparent, by simpa using hne, hempty⟩
      refine ⟨p, x :: earlier, message_list ++ [m], hpmem, ?_, ?_, hnext⟩
      · rw [walk_succ, hx]
        exact hfollow
      · intro j hj y hy
        rcases Nat.lt_succ_iff_lt_or_eq.mp hj with hlt | rfl
        · exact List.mem_cons_of_mem x (hearlier j hlt y hy)
        · rw [hx] at hy
          cases hy
          exact List.mem_cons_self

/-- **The loop ends unless the links loop for ever.** -/
theorem collect_ends_iff (hc : c ∈ messages) :
    (∃ n, collect messages n (messages.get? c) [] [] ≠ none) ↔ ¬ LoopsForever messages c := by
  constructor
  · rintro ⟨n, hn⟩ hloops
    exact hn (@collect_of_loopsForever messages c hloops n 0 c rfl [] (by simp) [])
  · intro hloops
    by_contra hnone
    push Not at hnone
    have hreach := reach_of_collect_none hc hnone
    refine hloops ⟨fun n => ?_, fun n x hx => ?_, fun i j x y hij hx hy => ?_⟩
    · obtain ⟨x, -, -, -, hx, -⟩ := hreach n
      rw [hx]
      rfl
    · obtain ⟨x', earlier, message_list, hmem, hx', -, hcollect⟩ := hreach n
      rw [hx] at hx'
      cases hx'
      exact (readsOn_of_collect_none hmem hcollect).1.2.1
    · obtain ⟨y', earlier, message_list, hmem, hy', hearlier, hcollect⟩ := hreach j
      rw [hy] at hy'
      cases hy'
      exact (readsOn_of_collect_none hmem hcollect).2 x (hearlier i hij x hx)

/-! ## The branch -/

/-- Where the message is in the map, the result is what the loop collects. -/
theorem get_message_list_of_mem (hc : c ∈ messages) (n : ℕ) :
    get_message_list (n + 1) messages (.str c) =
      (collect messages (n + 1) (messages.get? c) [] []).map (Except.map List.reverse) := by
  obtain ⟨m, hm⟩ := Dict.mem_iff_exists.mp hc
  have hne : messages.entries ≠ [] := by
    intro hnil
    rw [Dict.get?, hnil] at hm
    cases hm
  have hlookup : lookup messages (.str c) = .ok (some m) := by
    rw [← hm]
    rfl
  unfold get_message_list
  rw [if_neg hne, hlookup, hm]
  dsimp only
  by_cases hempty : m = []
  · rw [if_pos hempty, collect, if_pos hempty]
    rfl
  · rw [if_neg hempty]

/-- A message id that is not in the map has no branch; an unhashable one raises. -/
theorem get_message_list_of_not_mem {v : Json} (h : ∀ c ∈ messages, v ≠ .str c) (n : ℕ) :
    get_message_list n messages v =
      if messages.entries = [] then some (.ok []) else some (v.key.map fun _ => []) := by
  unfold get_message_list
  refine if_congr Iff.rfl rfl ?_
  have hlookup : lookup messages v = v.key.map fun _ => none := by
    cases v with
    | str c =>
      have hget : messages.get? c = none := by
        rw [Dict.get?_eq_none_iff]
        exact fun hc => h c hc rfl
      simp [lookup, Json.key, hget, bind, Except.bind, pure, Except.pure, Except.map]
    | null | bool | int | float | list | dict => rfl
  rw [hlookup]
  cases v.key with
  | ok k => rfl
  | error e => rfl

/-- The loop's result, where it has one. -/
theorem get_message_list_succ_eq_some (hc : c ∈ messages) {n : ℕ}
    {r : Except PyErr (List Message)}
    (h : collect messages (n + 1) (messages.get? c) [] [] = some r) :
    get_message_list (n + 1) messages (.str c) = some (r.map List.reverse) := by
  rw [get_message_list_of_mem hc, h]
  rfl

/-- More iterations do not change what has been returned. -/
theorem collect_mono {n : ℕ} {current : Option Message} {visited : List Json.Key}
    {message_list : List Message} {r : Except PyErr (List Message)}
    (h : collect messages n current visited message_list = some r) :
    collect messages (n + 1) current visited message_list = some r := by
  induction n generalizing current visited message_list with
  | zero => cases h
  | succ n ih =>
    cases current with
    | none => exact h
    | some message =>
      rw [collect] at h ⊢
      split
      · rw [if_pos ‹_›] at h
        exact h
      · rw [if_neg ‹_›] at h
        cases hk : (message.field "id").key with
        | error e =>
          rw [hk] at h
          exact h
        | ok k =>
          rw [hk] at h
          dsimp only at h ⊢
          split
          · rw [if_pos ‹_›] at h
            exact h
          · rw [if_neg ‹_›] at h
            cases hnext : lookupParent messages message with
            | error e =>
              rw [hnext] at h
              exact h
            | ok next =>
              rw [hnext] at h
              exact ih h

/-- A result does not depend on the number of iterations. -/
theorem get_message_list_add {v : Json} {n : ℕ} {r : Except PyErr (List Message)}
    (h : get_message_list n messages v = some r) (k : ℕ) :
    get_message_list (n + k) messages v = some r := by
  induction k with
  | zero => exact h
  | succ k ih =>
    unfold get_message_list at ih ⊢
    split
    · rwa [if_pos ‹_›] at ih
    · rw [if_neg ‹_›] at ih
      revert ih
      cases lookup messages v with
      | error e => exact id
      | ok found =>
        cases found with
        | none => exact id
        | some message =>
          dsimp only
          split
          · exact id
          · intro ih
            obtain ⟨r', hr', hmap⟩ := Option.map_eq_some_iff.mp ih
            rw [show n + (k + 1) = n + k + 1 from rfl, collect_mono hr', ← hmap]
            rfl

theorem listTerminates_iff (hc : c ∈ messages) :
    ListTerminates messages (.str c) ↔ ¬ LoopsForever messages c := by
  rw [← collect_ends_iff hc]
  constructor
  · rintro ⟨n, hn⟩
    by_contra hnone
    push Not at hnone
    have hempty : messages.get? c ≠ some [] := by
      intro heq
      have hone := hnone 1
      rw [heq, collect, if_pos rfl] at hone
      cases hone
    refine hn ?_
    obtain ⟨m, hm⟩ := Dict.mem_iff_exists.mp hc
    have hlookup : lookup messages (.str c) = .ok (some m) := by
      rw [← hm]
      rfl
    have hentries : messages.entries ≠ [] := by
      intro hnil
      rw [Dict.get?, hnil] at hm
      cases hm
    have hne : m ≠ [] := fun heq => hempty (by rw [hm, heq])
    unfold get_message_list
    rw [if_neg hentries, hlookup]
    dsimp only
    rw [if_neg hne, ← hm, hnone n]
    rfl
  · rintro ⟨n, hn⟩
    obtain ⟨r, hr⟩ := Option.ne_none_iff_exists'.mp hn
    refine ⟨n + 1, ?_⟩
    rw [get_message_list_succ_eq_some hc (collect_mono hr)]
    exact Option.some_ne_none _

/-- The messages of a branch, as what its ids are mapped to. -/
theorem map_get?_branch {branch : List String} (h : ∀ x ∈ branch, x ∈ messages) :
    branch.map messages.get? = (branchMessages messages branch).map some := by
  unfold branchMessages
  induction branch with
  | nil => rfl
  | cons x branch ih =>
    obtain ⟨m, hm⟩ := Dict.mem_iff_exists.mp (h x (by simp))
    rw [List.map_cons, List.filterMap_cons_some hm, List.map_cons, hm,
      ih fun y hy => h y (by simp [hy])]

/-- The ancestors of a message are in the map. -/
theorem mem_of_ancestorsIn (hl : Ancestors (parentIn messages) c l) (hc : c ∈ messages) :
    ∀ x ∈ c :: l, x ∈ messages := by
  induction hl with
  | root => simpa using hc
  | step hp _ ih =>
    obtain ⟨-, -, -, hpmem⟩ := parentIn_eq_some.mp hp
    exact List.forall_mem_cons.mpr ⟨hc, ih hpmem⟩

/-- **The chain is returned exactly when the branch is plain.** -/
theorem returnsChain_iff (hl : Ancestors (parentIn messages) c l) (hc : c ∈ messages) :
    (∃ fuel xs, get_message_list fuel messages (.str c) = some (.ok xs) ∧
      IsChainTo messages (.str c) xs) ↔ PlainBranch messages (c :: l) := by
  obtain ⟨r, hr, hplain, hshort⟩ := collect_ancestors hl hc [] []
  have hafter : PlainAfter messages [] (c :: l) ↔ PlainBranch messages (c :: l) :=
    ⟨fun h => h.plain, fun h => ⟨h, by simp⟩⟩
  have hmem := mem_of_ancestorsIn hl hc
  rw [hafter] at hplain hshort
  constructor
  · rintro ⟨fuel, xs, hrun, ⟨habsent, -⟩ | ⟨c', -, l', heq, hl', hxs⟩⟩
    · exact absurd rfl (habsent c hc)
    · cases heq
      obtain rfl := hl.unique hl'
      by_contra hnot
      -- with enough iterations the result is short of the chain
      have hlong := get_message_list_add hrun (l.length + 2)
      have hcollect := @get_message_list_succ_eq_some messages c hc (fuel + l.length + 1) r (hr fuel)
      rw [show fuel + (l.length + 2) = fuel + l.length + 1 + 1 by omega, hcollect] at hlong
      cases r with
      | error e => cases hlong
      | ok ys =>
        obtain rfl : ys.reverse = xs := Except.ok.inj (Option.some.inj hlong)
        have hlt := hshort hnot ys rfl
        have hlen := congrArg List.length hxs
        simp only [List.length_map, List.reverse_reverse, List.length_nil] at hlen hlt
        omega
  · intro h
    refine ⟨l.length + 2, (branchMessages messages (c :: l)).reverse, ?_, .inr ?_⟩
    · have hcollect := hr 0
      rw [hplain h, Nat.zero_add] at hcollect
      exact get_message_list_succ_eq_some hc hcollect
    · refine ⟨c, hc, l, rfl, hl, ?_⟩
      rw [List.reverse_reverse]
      exact map_get?_branch hmem

/-- Two messages without an `id`, each the parent of the other. -/
def idlessCycle : Dict String Message :=
  ⟨[("a", [("parentId", .str "b")]), ("b", [("parentId", .str "a")])], by decide⟩

end OpenLaunch.Chats
