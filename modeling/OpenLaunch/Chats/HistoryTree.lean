import OpenLaunch.Chats.Upsert

/-! # The tree of a history over runs

In every run whose calls agree with the stored links, the two link fields of the stored history
mirror each other, apart from the ids whose parent is still to be told of them, and `currentId` is
`None` or an id of the map. A merge makes the child lists anew, so that no id waits after it. -/

namespace OpenLaunch.Chats

open Python Transition

variable {messages messages' : Dict String Message} {waiting : List String}

/-! ## The invariant -/

/-- The two link fields of a message. -/
def linkFields (m : Message) : Json × Json := (m.field "parentId", m.field "childrenIds")

/-- The maps have the same ids and the same links. -/
def SameLinks (messages messages' : Dict String Message) : Prop :=
  ∀ c, (messages.get? c).map linkFields = (messages'.get? c).map linkFields

/-- A map whose links mirror each other, apart from the ids that wait; its child lists are lists,
and its ids and links have no null characters. -/
structure LinkedTree (messages : Dict String Message) (waiting : List String) : Prop where
  lists : ∀ p m, messages.get? p = some m → ∃ cs, m.field "childrenIds" = .list cs
  clean : ∀ p m, messages.get? p = some m → NullFree p ∧
    sanitize_data_for_db (m.field "parentId") = m.field "parentId" ∧
    sanitize_data_for_db (m.field "childrenIds") = m.field "childrenIds"
  sound : ∀ p m c m', messages.get? p = some m → messages.get? c = some m' →
    ListsId m c → m'.field "parentId" = .str p
  listed : ∀ p m c m', messages.get? p = some m → messages.get? c = some m' →
    m'.field "parentId" = .str p → c ∉ waiting → ListsId m c

/-- The current message is none or in the map. -/
def CurrentIn (messages : Dict String Message) (currentId : Json) : Prop :=
  currentId = .null ∨ ∃ c ∈ messages, currentId = .str c

theorem SameLinks.symm (h : SameLinks messages messages') : SameLinks messages' messages :=
  fun c => (h c).symm

theorem SameLinks.get? (h : SameLinks messages messages') {c : String} {m' : Message}
    (hm' : messages'.get? c = some m') : ∃ m, messages.get? c = some m ∧
      m.field "parentId" = m'.field "parentId" ∧ m.field "childrenIds" = m'.field "childrenIds" := by
  have hc := h c
  rw [hm'] at hc
  obtain ⟨m, hm, hlinks⟩ := Option.map_eq_some_iff.mp hc
  obtain ⟨hparent, hchildren⟩ := Prod.mk.inj hlinks
  exact ⟨m, hm, hparent, hchildren⟩

theorem SameLinks.mem_iff (h : SameLinks messages messages') (c : String) :
    c ∈ messages ↔ c ∈ messages' := by
  have hc := congrArg Option.isSome (h c)
  rw [Option.isSome_map, Option.isSome_map] at hc
  rw [Dict.mem_iff_isSome, Dict.mem_iff_isSome, hc]

theorem listsId_congr {m m' : Message} (h : m.field "childrenIds" = m'.field "childrenIds")
    (c : String) : ListsId m c ↔ ListsId m' c := by
  unfold ListsId
  rw [h]

/-- The invariant is one of the links. -/
theorem LinkedTree.congr (h : LinkedTree messages waiting) (hlinks : SameLinks messages messages') :
    LinkedTree messages' waiting where
  lists p m' hm' := by
    obtain ⟨m, hm, -, hchildren⟩ := hlinks.get? hm'
    rw [← hchildren]
    exact h.lists p m hm
  clean p m' hm' := by
    obtain ⟨m, hm, hparent, hchildren⟩ := hlinks.get? hm'
    rw [← hparent, ← hchildren]
    exact h.clean p m hm
  sound p m c m' hm hm' hlists := by
    obtain ⟨n, hn, -, hchildren⟩ := hlinks.get? hm
    obtain ⟨n', hn', hparent, -⟩ := hlinks.get? hm'
    rw [← hparent]
    exact h.sound p n c n' hn hn' ((listsId_congr hchildren c).mpr hlists)
  listed p m c m' hm hm' hparent' hc := by
    obtain ⟨n, hn, -, hchildren⟩ := hlinks.get? hm
    obtain ⟨n', hn', hparent, -⟩ := hlinks.get? hm'
    rw [← hparent] at hparent'
    exact (listsId_congr hchildren c).mp (h.listed p n c n' hn hn' hparent' hc)

/-- Storing a tree keeps its links. -/
theorem LinkedTree.sameLinks_sanitize {history : History}
    (h : LinkedTree history.messages waiting) :
    SameLinks history.messages history.sanitize.messages := by
  intro c
  show _ = ((history.messages.mapValues fun _ m => sanitizeEntries m).get? c).map linkFields
  rw [Dict.get?_mapValues, Option.map_map]
  cases hm : history.messages.get? c with
  | none => rfl
  | some m =>
    obtain ⟨-, hparent, hchildren⟩ := h.clean c m hm
    simp only [Option.map_some, Function.comp_apply, linkFields, field_sanitizeEntries, hparent,
      hchildren]

theorem LinkedTree.sanitize {history : History} (h : LinkedTree history.messages waiting) :
    LinkedTree history.sanitize.messages waiting := h.congr h.sameLinks_sanitize

/-- Storing keeps the current message. -/
theorem CurrentIn.sanitize {history : History} (h : LinkedTree history.messages waiting)
    (hcurrent : CurrentIn history.messages history.currentId) :
    CurrentIn history.sanitize.messages history.sanitize.currentId := by
  rcases hcurrent with hnull | ⟨c, hc, hstr⟩
  · left
    show sanitize_data_for_db history.currentId = .null
    rw [hnull]
    rfl
  · right
    obtain ⟨m, hm⟩ := Dict.mem_iff_exists.mp hc
    refine ⟨c, (h.sameLinks_sanitize.mem_iff c).mp hc, ?_⟩
    show sanitize_data_for_db history.currentId = .str c
    rw [hstr, sanitize_data_for_db, sanitize_text_of_nullFree (h.clean c m hm).1]

/-! ## Reading -/

/-- The search for the latest leaf finds a message of the map. -/
theorem mem_of_laterLeaf {greater : Json → Json → Except PyErr Bool}
    {entries : List (String × Message)} {latest latest' : Option String × Json}
    (h : entries.foldlM (laterLeaf greater) latest = .ok latest') {c : String}
    (hc : latest'.1 = some c) : latest.1 = some c ∨ c ∈ Assoc.keys entries := by
  induction entries generalizing latest with
  | nil =>
    cases h
    exact .inl hc
  | cons e entries ih =>
    rw [List.foldlM_cons] at h
    obtain ⟨next, hnext, h⟩ := bind_eq_ok.mp h
    rcases ih h with hprev | hmem
    · have hcases : next = latest ∨ next.1 = some e.1 := by
        unfold laterLeaf at hnext
        dsimp only at hnext
        split at hnext
        · obtain ⟨b, -, hb⟩ := bind_eq_ok.mp hnext
          cases b with
          | true =>
            cases hb
            exact .inr rfl
          | false =>
            cases hb
            exact .inl rfl
        · cases hnext
          exact .inl rfl
      rcases hcases with rfl | hnew
      · exact .inl hprev
      · rw [hnew] at hprev
        cases hprev
        exact .inr (by simp)
    · exact .inr (List.mem_cons_of_mem _ hmem)

/-- The repaired current message is in the map, if it is repaired. -/
theorem repairedCurrentId_in {greater : Json → Json → Except PyErr Bool} {history : History}
    {currentId : Json} (h : repairedCurrentId greater history = .ok currentId)
    (hcurrent : CurrentIn history.messages history.currentId) :
    CurrentIn history.messages currentId := by
  unfold repairedCurrentId at h
  obtain ⟨current, -, h⟩ := bind_eq_ok.mp h
  obtain ⟨output_role, -, h⟩ := bind_eq_ok.mp h
  split at h
  · cases h
    exact hcurrent
  · obtain ⟨latest, hlatest, h⟩ := bind_eq_ok.mp h
    cases hfound : latest.1 with
    | none =>
      rw [hfound] at h
      cases h
      exact hcurrent
    | some leaf =>
      rw [hfound] at h
      cases h
      dsimp only
      split
      · exact hcurrent
      · rcases mem_of_laterLeaf hlatest hfound with hnone | hmem
        · cases hnone
        · exact .inr ⟨leaf, hmem, rfl⟩

/-- Reading keeps the invariant. -/
theorem readHistory_tree {greater : Json → Json → Except PyErr Bool} {history history' : History}
    (hread : readHistory greater history = .ok history')
    (h : LinkedTree history.messages waiting)
    (hcurrent : CurrentIn history.messages history.currentId) :
    SameLinks history.messages history'.messages ∧ LinkedTree history'.messages waiting ∧
      CurrentIn history'.messages history'.currentId := by
  obtain ⟨currentId, hrepair, hread⟩ := bind_eq_ok.mp hread
  cases hread
  have hrepaired := repairedCurrentId_in hrepair hcurrent
  have htree : LinkedTree (History.mk history.messages currentId).messages waiting := h
  exact ⟨htree.sameLinks_sanitize, htree.sanitize, CurrentIn.sanitize htree hrepaired⟩

/-! ## Upserts -/

/-- Sanitizing the content leaves the other fields. -/
theorem get?_sanitizeContent (message : Dict String Json) {k : String} (hk : k ≠ "content") :
    (sanitizeContent message).get? k = message.get? k := by
  unfold sanitizeContent
  split
  · exact Dict.get?_set_ne message hk _
  · rfl

/-- A field of an updated message. -/
theorem field_update (old : Message) (d : Dict String Json) (k : String) :
    Message.field (Assoc.update old d.entries) k = (d.get? k).getD (old.field k) := by
  unfold Message.field
  rw [Assoc.get?_update d.nodup]
  show ((d.get? k).or (Assoc.get? old k)).getD .null = _
  cases d.get? k <;> rfl

/-- A field of the argument of an upsert. -/
theorem field_entries (d : Dict String Json) (k : String) :
    Message.field d.entries k = (d.get? k).getD .null := rfl

/-- A map with one message stored, and its child list and parent checked. -/
theorem LinkedTree.set (h : LinkedTree messages waiting) {x : String} {m : Message}
    {waiting' : List String} (hx : NullFree x)
    (hlists : ∃ cs, m.field "childrenIds" = .list cs)
    (hclean : sanitize_data_for_db (m.field "parentId") = m.field "parentId" ∧
      sanitize_data_for_db (m.field "childrenIds") = m.field "childrenIds")
    (hself : ListsId m x → m.field "parentId" = .str x)
    (hself' : m.field "parentId" = .str x → x ∉ waiting' → ListsId m x)
    (hdown : ∀ c m', c ≠ x → messages.get? c = some m' →
      (ListsId m c → m'.field "parentId" = .str x) ∧
        (m'.field "parentId" = .str x → c ∉ waiting' → ListsId m c))
    (hup : ∀ p m', p ≠ x → messages.get? p = some m' →
      (ListsId m' x → m.field "parentId" = .str p) ∧
        (m.field "parentId" = .str p → x ∉ waiting' → ListsId m' x))
    (hold : ∀ c, c ≠ x → c ∈ waiting → c ∉ waiting' → ∀ p m' mc, p ≠ x →
      messages.get? p = some m' → messages.get? c = some mc → mc.field "parentId" ≠ .str p) :
    LinkedTree (messages.set x m) waiting' := by
  have hcases : ∀ {p n}, (messages.set x m).get? p = some n →
      (p = x ∧ n = m) ∨ (p ≠ x ∧ messages.get? p = some n) := by
    intro p n hn
    rw [Dict.get?_set] at hn
    split at hn
    · exact .inl ⟨‹_›, (Option.some.inj hn).symm⟩
    · exact .inr ⟨‹_›, hn⟩
  refine ⟨fun p n hn => ?_, fun p n hn => ?_, fun p n c n' hn hn' hl => ?_,
    fun p n c n' hn hn' hp hc => ?_⟩
  · rcases hcases hn with ⟨rfl, rfl⟩ | ⟨-, hn₁⟩
    · exact hlists
    · exact h.lists p n hn₁
  · rcases hcases hn with ⟨rfl, rfl⟩ | ⟨-, hn₁⟩
    · exact ⟨hx, hclean⟩
    · exact h.clean p n hn₁
  · rcases hcases hn with ⟨rfl, rfl⟩ | ⟨hne, hn₁⟩ <;>
      rcases hcases hn' with ⟨rfl, rfl⟩ | ⟨hne', hn₂⟩
    · exact hself hl
    · exact (hdown c n' hne' hn₂).1 hl
    · exact (hup p n hne hn₁).1 hl
    · exact h.sound p n c n' hn₁ hn₂ hl
  · rcases hcases hn with ⟨rfl, rfl⟩ | ⟨hne, hn₁⟩ <;>
      rcases hcases hn' with ⟨rfl, rfl⟩ | ⟨hne', hn₂⟩
    · exact hself' hp hc
    · exact (hdown c n' hne' hn₂).2 hp hc
    · exact (hup p n hne hn₁).2 hp hc
    · by_cases hw : c ∈ waiting
      · exact absurd hp (hold c hne' hw hc p n n' hne hn₁ hn₂)
      · exact h.listed p n c n' hn₁ hn₂ hp hw

/-- **An update that agrees with the links keeps the tree**, and tells the message of the children
it lists. -/
theorem LinkedTree.update (h : LinkedTree messages waiting) {x : String} {old : Message}
    {message : Dict String Json} (hold : messages.get? x = some old)
    (hagree : UpdatesAgreeing messages x old message) :
    LinkedTree (messages.set x (Assoc.update old (sanitizeContent message).entries))
      (waiting.filter fun c => ¬ ListsId message.entries c) := by
  obtain ⟨hx, hcleanParent, hcleanChildren⟩ := h.clean x old hold
  obtain ⟨oldCs, holdCs⟩ := h.lists x old hold
  have hparent : Message.field (Assoc.update old (sanitizeContent message).entries) "parentId" =
      old.field "parentId" := by
    rw [field_update, get?_sanitizeContent message (by decide)]
    rcases hagree.parent with hnone | hsome
    · rw [hnone]
      rfl
    · rw [hsome]
      rfl
  have hwait : ∀ {c}, c ∉ waiting.filter (fun c => ¬ ListsId message.entries c) →
      c ∉ waiting ∨ ListsId message.entries c := by
    intro c hc
    rw [List.mem_filter] at hc
    by_contra hnot
    push Not at hnot
    exact hc ⟨hnot.1, by simpa using hnot.2⟩
  rcases hagree.children with hnone | ⟨cs, hcs, hclean, hkids⟩
  · -- the child list stays as it is
    have hchildren : Message.field (Assoc.update old (sanitizeContent message).entries)
        "childrenIds" = old.field "childrenIds" := by
      rw [field_update, get?_sanitizeContent message (by decide), hnone]
      rfl
    have hnotold : ∀ c, ¬ ListsId message.entries c := by
      intro c hc
      rw [ListsId, field_entries, hnone] at hc
      cases hc
    have hlisted : ∀ c, ListsId (Assoc.update old (sanitizeContent message).entries) c ↔
        ListsId old c := listsId_congr hchildren
    refine h.set hx ⟨oldCs, by rw [hchildren, holdCs]⟩
      ⟨by rw [hparent, hcleanParent], by rw [hchildren, hcleanChildren]⟩ ?_ ?_ ?_ ?_ ?_
    · rw [hlisted, hparent]
      exact h.sound x old x old hold hold
    · rw [hlisted, hparent]
      intro hp hc
      exact h.listed x old x old hold hold hp ((hwait hc).resolve_right (hnotold x))
    · intro c m' _ hm'
      rw [hlisted]
      exact ⟨h.sound x old c m' hold hm', fun hp hc =>
        h.listed x old c m' hold hm' hp ((hwait hc).resolve_right (hnotold c))⟩
    · intro p m' _ hm'
      rw [hparent]
      exact ⟨h.sound p m' x old hm' hold, fun hp hc =>
        h.listed p m' x old hm' hold hp ((hwait hc).resolve_right (hnotold x))⟩
    · intro c _ hc hc'
      exact absurd ((hwait hc').resolve_right (hnotold c)) (not_not.mpr hc)
  · have hchildren : Message.field (Assoc.update old (sanitizeContent message).entries)
        "childrenIds" = .list cs := by
      rw [field_update, get?_sanitizeContent message (by decide), hcs]
      rfl
    have hlisted : ∀ c, ListsId (Assoc.update old (sanitizeContent message).entries) c ↔
        .str c ∈ cs := by
      intro c
      rw [ListsId, hchildren]
      rfl
    have hmessage : ∀ c, ListsId message.entries c ↔ .str c ∈ cs := by
      intro c
      rw [ListsId, field_entries, hcs]
      rfl
    have hdown : ∀ c m', messages.get? c = some m' → m'.field "parentId" = .str x →
        c ∉ waiting.filter (fun c => ¬ ListsId message.entries c) → .str c ∈ cs := by
      intro c m' hm' hp hc
      rcases hwait hc with hw | hl
      · exact (hkids c m' hm').2 (h.listed x old c m' hold hm' hp hw)
      · exact (hmessage c).mp hl
    refine h.set hx ⟨cs, hchildren⟩ ⟨by rw [hparent, hcleanParent], ?_⟩ ?_ ?_ ?_ ?_ ?_
    · rw [hchildren, sanitize_data_for_db, sanitizeItems_eq, List.map_congr_left hclean,
        List.map_id']
    · rw [hlisted, hparent]
      exact (hkids x old hold).1
    · rw [hlisted, hparent]
      exact hdown x old hold
    · intro c m' _ hm'
      rw [hlisted]
      exact ⟨(hkids c m' hm').1, hdown c m' hm'⟩
    · intro p m' hne hm'
      rw [hparent]
      refine ⟨h.sound p m' x old hm' hold, fun hp hc => ?_⟩
      rcases hwait hc with hw | hl
      · exact h.listed p m' x old hm' hold hp hw
      · -- the message would be its own child
        have hself := (hkids x old hold).1 ((hmessage x).mp hl)
        rw [hself] at hp
        exact absurd (Json.str.inj hp).symm hne
    · intro c _ hc hc' p m' mc hne hm' hmc hp
      have hl := (hwait hc').resolve_left (not_not.mpr hc)
      have hself := (hkids c mc hmc).1 ((hmessage c).mp hl)
      rw [hself] at hp
      exact hne (Json.str.inj hp).symm

/-! ## New messages -/

/-- Where every child list is a list, one looks for the parent in the lists. -/
theorem findParent_eq {message_id : String} {entries : List (String × Message)}
    (h : ∀ e ∈ entries, ∃ cs, e.2.field "childrenIds" = .list cs) :
    findParent message_id entries =
      .ok ((entries.find? fun e => ListsId e.2 message_id).map Prod.fst) := by
  induction entries with
  | nil => rfl
  | cons e entries ih =>
    obtain ⟨cs, hcs⟩ := h e (by simp)
    have hchildren : e.2.childrenIds = .list cs := by
      unfold Message.field at hcs
      unfold Message.childrenIds
      cases hget : Assoc.get? e.2 "childrenIds" with
      | none => rw [hget] at hcs; cases hcs
      | some v => rw [hget] at hcs; exact hcs
    have hiff : ListsId e.2 message_id ↔ .str message_id ∈ cs := by
      unfold ListsId
      rw [hcs]
      rfl
    have hlists : listsChild e.2 message_id = .ok (decide (ListsId e.2 message_id)) := by
      unfold listsChild
      rw [hchildren]
      exact congrArg Except.ok (decide_eq_decide.mpr hiff.symm)
    rw [findParent, hlists, List.find?_cons]
    by_cases hl : ListsId e.2 message_id
    · simp [hl, bind, Except.bind, pure, Except.pure]
    · simp only [hl, bind, Except.bind, decide_false, Bool.false_eq_true, if_false]
      exact ih fun e he => h e (by simp [he])

/-- The parent of a new message: the one it names, or else one that lists it. -/
theorem findParentId_cases (h : LinkedTree messages waiting) {message_id : String}
    {message : Message} {parent_id : Json}
    (hfind : findParentId messages message_id message = .ok parent_id) :
    (message.field "parentId" ≠ .null ∧ parent_id = message.field "parentId") ∨
      (message.field "parentId" = .null ∧ ((parent_id = .null ∧
          ∀ p m, messages.get? p = some m → ¬ ListsId m message_id) ∨
        ∃ p m, parent_id = .str p ∧ messages.get? p = some m ∧ ListsId m message_id)) := by
  unfold findParentId at hfind
  split at hfind
  · rename_i hnull
    refine .inr ⟨hnull, ?_⟩
    have hlists : ∀ e ∈ messages.entries, ∃ cs, e.2.field "childrenIds" = .list cs :=
      fun e he => h.lists e.1 e.2 (Dict.mem_entries_iff.mp he)
    rw [findParent_eq hlists] at hfind
    cases hfound : messages.entries.find? (fun e => ListsId e.2 message_id) with
    | none =>
      rw [hfound] at hfind
      cases hfind
      refine .inl ⟨rfl, fun p m hm hl => ?_⟩
      exact absurd (by simpa using hl)
        (List.find?_eq_none.mp hfound (p, m) (Dict.mem_entries_iff.mpr hm))
    | some e =>
      rw [hfound] at hfind
      cases hfind
      refine .inr ⟨e.1, e.2, rfl, Dict.mem_entries_iff.mp (List.mem_of_find?_eq_some hfound), ?_⟩
      simpa using List.find?_some hfound
  · rename_i hnull
    cases hfind
    exact .inl ⟨hnull, rfl⟩

/-- The link fields of a new message. -/
theorem linkFields_newFields (message_id : String) (message : Message)
    (parent_id role now : Json) :
    linkFields (Assoc.update message (newFields message_id message parent_id role now)) =
      (if message.field "parentId" = .null then parent_id else message.field "parentId",
        .list (message.field "childrenIds").elems) := by
  have hnodup : (Assoc.keys (newFields message_id message parent_id role now)).Nodup := by
    show ["id", "parentId", "childrenIds", "role", "timestamp"].Nodup
    decide
  unfold linkFields Message.field
  rw [Assoc.get?_update hnodup, Assoc.get?_update hnodup]
  rfl

/-- **A new message that agrees with the links keeps the tree**; it waits if it names a parent that
does not list it. -/
theorem LinkedTree.create (h : LinkedTree messages waiting) {x : String}
    {message : Dict String Json} (hx : NullFree x) (hnew : x ∉ messages)
    (hagree : CreatesAgreeing messages x message.entries) {parent_id : Json}
    (hfind : findParentId messages x (sanitizeContent message).entries = .ok parent_id)
    (role now : Json) :
    LinkedTree (messages.set x (Assoc.update (sanitizeContent message).entries
        (newFields x (sanitizeContent message).entries parent_id role now)))
      (if unlisted messages x message.entries then x :: waiting else waiting) := by
  have hfield : ∀ {k}, k ≠ "content" →
      Message.field (sanitizeContent message).entries k = Message.field message.entries k := by
    intro k hk
    rw [field_entries, field_entries, get?_sanitizeContent message hk]
  have hlinks := linkFields_newFields x (sanitizeContent message).entries parent_id role now
  rw [hfield (by decide), hfield (by decide)] at hlinks
  obtain ⟨hparent, hchildren⟩ := Prod.mk.inj hlinks
  have hfound := findParentId_cases h hfind
  rw [hfield (by decide)] at hfound
  generalize Assoc.update (sanitizeContent message).entries
    (newFields x (sanitizeContent message).entries parent_id role now) = m at hparent hchildren ⊢
  have hlists : ∀ c, ListsId m c ↔ ListsId message.entries c := by
    intro c
    unfold ListsId
    rw [hchildren]
    rfl
  -- the parent that is stored: none, or a message of the map
  have hstored : Message.field m "parentId" = .null ∧
        (∀ p m', messages.get? p = some m' → ¬ ListsId m' x) ∨
      ∃ p m', messages.get? p = some m' ∧ Message.field m "parentId" = .str p ∧
        (Message.field message.entries "parentId" = .str p ∨
          Message.field message.entries "parentId" = .null ∧ ListsId m' x) := by
    rcases hfound with ⟨hne, -⟩ | ⟨hnull, ⟨hpnull, hnone⟩ | ⟨p, m', hp, hm', hl⟩⟩
    · rw [if_neg hne] at hparent
      rcases hagree.parent with hnull | ⟨p, hp, hstr⟩
      · exact absurd hnull hne
      · obtain ⟨m', hm'⟩ := Dict.mem_iff_exists.mp hp
        exact .inr ⟨p, m', hm', by rw [hparent, hstr], .inl hstr⟩
    · rw [if_pos hnull, hpnull] at hparent
      exact .inl ⟨hparent, hnone⟩
    · rw [if_pos hnull, hp] at hparent
      exact .inr ⟨p, m', hm', hparent, .inr ⟨hnull, hl⟩⟩
  have hwait : ∀ {c}, c ∈ waiting →
      c ∈ if unlisted messages x message.entries then x :: waiting else waiting := by
    intro c hc
    split
    · exact List.mem_cons_of_mem x hc
    · exact hc
  refine h.set hx ⟨_, hchildren⟩ ⟨?_, ?_⟩ ?_ ?_ ?_ ?_ ?_
  · rcases hstored with ⟨hnull, -⟩ | ⟨p, m', hm', hstr, -⟩
    · rw [hnull]
      rfl
    · rw [hstr, sanitize_data_for_db, sanitize_text_of_nullFree (h.clean p m' hm').1]
  · rw [hchildren, sanitize_data_for_db, sanitizeItems_eq,
      List.map_congr_left fun v hv => (hagree.clean v hv).1, List.map_id']
  · intro hl
    exact absurd rfl (hagree.clean _ ((hlists x).mp hl)).2
  · intro hself
    rcases hstored with ⟨hnull, -⟩ | ⟨p, m', hm', hstr, -⟩
    · rw [hnull] at hself
      cases hself
    · rw [hstr] at hself
      cases hself
      exact absurd (Dict.mem_iff_exists.mpr ⟨m', hm'⟩) hnew
  · intro c m' _ hm'
    rw [hlists]
    have hiff := hagree.children c m' hm'
    exact ⟨hiff.mp, fun hp _ => hiff.mpr hp⟩
  · intro p m' _ hm'
    constructor
    · intro hl
      rcases hstored with ⟨-, hnone⟩ | ⟨q, mq, hmq, hstr, hcases⟩
      · exact absurd hl (hnone p m' hm')
      · rcases hagree.only p m' hm' hl with hp | ⟨hnull, honly⟩
        · rcases hcases with hq | ⟨hnull, -⟩
          · rw [hstr, ← hq, hp]
          · rw [hnull] at hp
            cases hp
        · rcases hcases with hq | ⟨-, hlq⟩
          · rw [hnull] at hq
            cases hq
          · rw [hstr, honly q mq hmq hlq]
    · intro hp hc
      rcases hstored with ⟨hnull, -⟩ | ⟨q, mq, hmq, hstr, hcases⟩
      · rw [hnull] at hp
        cases hp
      · rw [hstr] at hp
        cases hp
        rw [hm'] at hmq
        cases hmq
        rcases hcases with hgiven | ⟨-, hl⟩
        · have hlisted : unlisted messages x message.entries = false := by
            by_contra htrue
            rw [if_pos (by simpa using htrue)] at hc
            exact hc List.mem_cons_self
          simpa [unlisted, hgiven, listedAt, hm'] using hlisted
        · exact hl
  · intro c _ hc hc'
    exact absurd (hwait hc) hc'

/-! ## Merges -/

/-- The ids that name a parent. -/
theorem mem_childrenByParent {p c : String} : c ∈ childrenByParent messages p ↔
    ∃ m, messages.get? c = some m ∧ m.field "parentId" = .str p := by
  unfold childrenByParent
  simp only [List.mem_map, List.mem_filter, decide_eq_true_eq]
  constructor
  · rintro ⟨e, ⟨he, hp⟩, rfl⟩
    exact ⟨e.2, Dict.mem_entries_iff.mp he, hp⟩
  · rintro ⟨m, hm, hp⟩
    exact ⟨(c, m), ⟨Dict.mem_entries_iff.mpr hm, hp⟩, rfl⟩

/-- **Rebuilt child lists mirror the parents**, whatever the parents are. -/
theorem linkedTree_rebuildChildren (hclean : ∀ p m, messages.get? p = some m → NullFree p ∧
      sanitize_data_for_db (m.field "parentId") = m.field "parentId") :
    LinkedTree (rebuildChildren messages) [] := by
  have hget : ∀ {p n}, (rebuildChildren messages).get? p = some n → ∃ m,
      messages.get? p = some m ∧ n.field "parentId" = m.field "parentId" ∧
        n.field "childrenIds" = .list ((childrenByParent messages p).map .str) := by
    intro p n hn
    rw [rebuildChildren, Dict.get?_mapValues] at hn
    obtain ⟨m, hm, rfl⟩ := Option.map_eq_some_iff.mp hn
    refine ⟨m, hm, ?_, ?_⟩
    · rw [Message.field_setField, if_neg (by decide)]
    · rw [Message.field_setField, if_pos rfl]
  have hlists : ∀ {p n c}, (rebuildChildren messages).get? p = some n →
      (ListsId n c ↔ ∃ m, messages.get? c = some m ∧ m.field "parentId" = .str p) := by
    intro p n c hn
    obtain ⟨m, -, -, hchildren⟩ := hget hn
    rw [ListsId, hchildren, ← mem_childrenByParent]
    simp [Json.elems]
  refine ⟨fun p n hn => ?_, fun p n hn => ?_, fun p n c n' hn hn' hl => ?_,
    fun p n c n' hn hn' hp _ => ?_⟩
  · obtain ⟨m, -, -, hchildren⟩ := hget hn
    exact ⟨_, hchildren⟩
  · obtain ⟨m, hm, hparent, hchildren⟩ := hget hn
    refine ⟨(hclean p m hm).1, by rw [hparent, (hclean p m hm).2], ?_⟩
    have hids : ∀ v ∈ (childrenByParent messages p).map Json.str, sanitize_data_for_db v = v := by
      intro v hv
      obtain ⟨c, hc, rfl⟩ := List.mem_map.mp hv
      obtain ⟨m', hm', -⟩ := mem_childrenByParent.mp hc
      rw [sanitize_data_for_db, sanitize_text_of_nullFree (hclean c m' hm').1]
    rw [hchildren, sanitize_data_for_db, sanitizeItems_eq, List.map_congr_left hids, List.map_id']
  · obtain ⟨m', hm', hparent, -⟩ := hget hn'
    obtain ⟨m, hm, hp⟩ := (hlists hn).mp hl
    rw [hm'] at hm
    cases hm
    rw [hparent, hp]
  · obtain ⟨m', hm', hparent, -⟩ := hget hn'
    exact (hlists hn).mpr ⟨m', hm', by rw [← hparent, hp]⟩

/-- The current message of a merge is in the merged map. -/
theorem currentIn_ok {currentId c : Json} {otherwise : Except PyErr Json}
    (hother : ∀ v, otherwise = .ok v → CurrentIn messages v)
    (h : currentIn messages currentId otherwise = .ok c) : CurrentIn messages c := by
  obtain ⟨here, hhere, h⟩ := bind_eq_ok.mp h
  split at h
  · rename_i htrue
    cases h
    obtain ⟨k, hk, hmem⟩ := bind_eq_ok.mp hhere
    subst htrue
    cases hc : currentId with
    | str s =>
      rw [hc] at hk
      cases hk
      exact .inr ⟨s, by simpa using Except.ok.inj hmem, rfl⟩
    | null => exact .inl rfl
    | bool | int | float | list | dict =>
      rw [hc] at hk
      first
      | cases hk
        cases Except.ok.inj hmem
      | cases hk
  · exact hother c h

/-- **A merge makes the tree anew**: no id waits. -/
theorem LinkedTree.merge {history history' : History} (h : LinkedTree history.messages waiting)
    {incoming : Dict String Json} {currentId : Json}
    (hagree : LinksAgree history (.merge incoming currentId))
    (hmerge : merge_history history incoming currentId = .ok history') :
    LinkedTree history'.messages [] ∧ CurrentIn history'.messages history'.currentId := by
  obtain ⟨-, -, hmerge⟩ := bind_eq_ok.mp hmerge
  obtain ⟨current_id, hcurrent, hmerge⟩ := bind_eq_ok.mp hmerge
  cases hmerge
  have hclean : ∀ p m, (mergedMessages history.messages incoming).get? p = some m → NullFree p ∧
      sanitize_data_for_db (m.field "parentId") = m.field "parentId" := by
    intro p m hm
    rw [mergedMessages, Dict.get?_filterMap, Dict.get?_update, Dict.get?_mapValues] at hm
    obtain ⟨v, hv, hdict⟩ := Option.bind_eq_some_iff.mp hm
    have hv' : v = .dict m := by
      cases v <;> simp_all [dict?]
    subst hv'
    cases hin : incoming.get? p with
    | some w =>
      rw [hin] at hv
      cases hv
      exact hagree p m hin
    | none =>
      rw [hin, Option.none_or] at hv
      obtain ⟨m', hm', heq⟩ := Option.map_eq_some_iff.mp hv
      cases heq
      exact ⟨(h.clean p m hm').1, (h.clean p m hm').2.1⟩
  refine ⟨linkedTree_rebuildChildren hclean, ?_⟩
  have hin : CurrentIn (mergedMessages history.messages incoming) current_id := by
    refine currentIn_ok (fun v hv => currentIn_ok (fun w hw => ?_) hv) hcurrent
    cases hw
    exact .inl rfl
  rcases hin with hnull | ⟨c, hc, hstr⟩
  · exact .inl hnull
  · refine .inr ⟨c, ?_, hstr⟩
    rw [Dict.mem_iff_isSome] at hc ⊢
    show ((rebuildChildren (mergedMessages history.messages incoming)).get? c).isSome
    rw [rebuildChildren, Dict.get?_mapValues, Option.isSome_map]
    exact hc

end OpenLaunch.Chats
