import OpenLaunch.Chats.HistoryTree
import Mathlib.Data.List.ReduceOption

/-! # The tree of a history over runs

A deletion keeps the tree as it is kept by the other writers, so that it is kept in every run. -/

namespace OpenLaunch.Chats

open Python Transition

variable {messages : Dict String Message} {waiting : List String}

/-! ## The links a deletion reads -/

/-- The present ids of a child list. -/
theorem mem_presentIds {xs : List Json} {ids : List String}
    (h : presentIds messages (.list xs) = .ok ids) (c : String) :
    c ∈ ids ↔ .str c ∈ xs ∧ c ∈ messages := by
  unfold presentIds at h
  rw [Json.iter_or_list] at h
  obtain ⟨_, hxs, h⟩ := bind_eq_ok.mp h
  cases hxs
  obtain ⟨present, hpresent, h⟩ := bind_eq_ok.mp h
  cases h
  obtain ⟨hfrom, hto⟩ := mem_of_mapM hpresent
  have hread : ∀ {i o}, presentId messages i = .ok o →
      (o = some c ↔ i = .str c ∧ c ∈ messages) := by
    intro i o hio
    obtain ⟨here, hhere, hio⟩ := bind_eq_ok.mp hio
    cases hio
    obtain ⟨k, hk, hhere⟩ := bind_eq_ok.mp hhere
    cases i with
    | str s =>
      cases hk
      cases hhere
      by_cases hs : s ∈ messages
      · simp only [hs, decide_true, if_true, Json.str?, Option.some.injEq, Json.str.injEq]
        exact ⟨fun hsc => ⟨hsc, hsc ▸ hs⟩, And.left⟩
      · simp only [hs, decide_false, Bool.false_eq_true, if_false, reduceCtorEq, Json.str.injEq,
          false_iff]
        rintro ⟨rfl, hc⟩
        exact hs hc
    | null | bool | int | float =>
      cases hk
      cases hhere
      simp
    | list | dict => cases hk
  rw [List.reduceOption_mem_iff]
  constructor
  · intro hc
    obtain ⟨i, hi, hio⟩ := hfrom _ hc
    obtain ⟨rfl, hmem⟩ := (hread hio).mp rfl
    exact ⟨hi, hmem⟩
  · rintro ⟨hc, hmem⟩
    obtain ⟨o, ho, hio⟩ := hto _ hc
    rwa [(hread hio).mpr ⟨rfl, hmem⟩] at ho

/-- **The links of a tree**, as a deletion reads them. -/
theorem readLinks_tree (h : LinkedTree messages waiting) {x : String} {m : Message} {l : Links}
    (hm : messages.get? x = some m) (hread : readLinks messages x m = .ok l) :
    l.parentId = m.field "parentId" ∧
      (∀ c, c ∈ l.childIds ↔ ListsId m c ∧ c ∈ messages) ∧
      (∀ g, g ∈ l.grandchildIds ↔
        ∃ c mc, c ∈ l.childIds ∧ messages.get? c = some mc ∧ ListsId mc g ∧ g ∈ messages) ∧
      ((∃ p mp, m.field "parentId" = .str p ∧ messages.get? p = some mp ∧
          l.adopter = some (p, (mp.field "childrenIds").elems.filter fun c => c ≠ .str x)) ∨
        (∀ p ∈ messages, m.field "parentId" ≠ .str p) ∧ l.adopter = none) := by
  have hparent := (readLinks_parent hread).1
  obtain ⟨cs, hcs⟩ := h.lists x m hm
  obtain ⟨child_ids, hchild, hread⟩ := bind_eq_ok.mp hread
  obtain ⟨grandchild_ids, hgrand, hread⟩ := bind_eq_ok.mp hread
  obtain ⟨here, hhere, hread⟩ := bind_eq_ok.mp hread
  rw [hcs] at hchild
  have hchildIds : ∀ c, c ∈ child_ids ↔ ListsId m c ∧ c ∈ messages := by
    intro c
    rw [mem_presentIds hchild c, ListsId, hcs]
    rfl
  have hgrandIds : ∀ g, g ∈ grandchild_ids.flatten ↔
      ∃ c mc, c ∈ child_ids ∧ messages.get? c = some mc ∧ ListsId mc g ∧ g ∈ messages := by
    obtain ⟨hfrom, hto⟩ := mem_of_mapM hgrand
    have hone : ∀ {c ids}, c ∈ child_ids →
        presentIds messages (((messages.get? c).getD []).field "childrenIds") = .ok ids →
        ∃ mc, messages.get? c = some mc ∧ ∀ g, g ∈ ids ↔ ListsId mc g ∧ g ∈ messages := by
      intro c ids hc hids
      obtain ⟨mc, hmc⟩ := Dict.mem_iff_exists.mp ((hchildIds c).mp hc).2
      obtain ⟨ds, hds⟩ := h.lists c mc hmc
      rw [hmc, Option.getD_some, hds] at hids
      refine ⟨mc, hmc, fun g => ?_⟩
      rw [mem_presentIds hids g, ListsId, hds]
      rfl
    intro g
    rw [List.mem_flatten]
    constructor
    · rintro ⟨ids, hids, hg⟩
      obtain ⟨c, hc, hread⟩ := hfrom ids hids
      obtain ⟨mc, hmc, hiff⟩ := hone hc hread
      exact ⟨c, mc, hc, hmc, (hiff g).mp hg⟩
    · rintro ⟨c, mc, hc, hmc, hg⟩
      obtain ⟨ids, hids, hread⟩ := hto c hc
      obtain ⟨mc', hmc', hiff⟩ := hone hc hread
      rw [hmc] at hmc'
      cases hmc'
      exact ⟨ids, hids, (hiff g).mpr hg⟩
  obtain ⟨k, hk, hhere⟩ := bind_eq_ok.mp hhere
  refine ⟨hparent, ?_⟩
  cases hp : m.field "parentId" with
  | str p =>
    rw [hp] at hk hread
    cases hk
    cases hhere
    by_cases hmem : p ∈ messages
    · simp only [hmem, decide_true] at hread
      obtain ⟨siblings, hsiblings, hread⟩ := bind_eq_ok.mp hread
      cases hread
      obtain ⟨mp, hmp⟩ := Dict.mem_iff_exists.mp hmem
      obtain ⟨ds, hds⟩ := h.lists p mp hmp
      rw [hmp, Option.getD_some, hds, Json.iter_or_list] at hsiblings
      cases hsiblings
      refine ⟨hchildIds, hgrandIds, .inl ⟨p, mp, rfl, hmp, ?_⟩⟩
      rw [hds]
      rfl
    · simp only [hmem, decide_false] at hread
      cases hread
      refine ⟨hchildIds, hgrandIds, .inr ⟨?_, rfl⟩⟩
      rintro q hq heq
      cases heq
      exact hmem hq
  | null | bool | int | float =>
    rw [hp] at hk hread
    cases hk
    cases hhere
    cases hread
    exact ⟨hchildIds, hgrandIds, .inr ⟨fun q _ heq => (by cases heq), rfl⟩⟩
  | list | dict =>
    rw [hp] at hk
    cases hk

/-- **A deletion keeps the tree.** -/
theorem LinkedTree.relink (h : LinkedTree messages waiting) {x : String} {m : Message} {l : Links}
    (hm : messages.get? x = some m) (hread : readLinks messages x m = .ok l) :
    LinkedTree (relink messages x l) waiting := by
  obtain ⟨hparent, hchild, hgrand, hadopter⟩ := readLinks_tree h hm hread
  -- a message of the result: what it was, and its new links
  have hget : ∀ {y n}, (Chats.relink messages x l).get? y = some n → y ∉ l.deletedIds x ∧
      ∃ n', messages.get? y = some n' ∧ n = messageAfter l y n' := by
    intro y n hn
    rw [get?_relink] at hn
    split at hn
    · cases hn
    · obtain ⟨n', hn', rfl⟩ := Option.map_eq_some_iff.mp hn
      exact ⟨‹_›, n', hn', rfl⟩
  have hdeleted : ∀ {y}, y ∈ l.deletedIds x ↔ y = x ∨ y ∈ l.childIds := List.mem_cons
  -- a grandchild names a deleted message
  have hgrandParent : ∀ {g ng}, g ∈ l.grandchildIds → messages.get? g = some ng →
      ∃ c ∈ l.deletedIds x, ng.field "parentId" = .str c := by
    intro g ng hg hng
    obtain ⟨c, mc, hc, hmc, hl, -⟩ := (hgrand g).mp hg
    exact ⟨c, hdeleted.mpr (.inr hc), h.sound c mc g ng hmc hng hl⟩
  -- the child list of the result
  have hlists : ∀ {y n' c}, messages.get? y = some n' → (ListsId (messageAfter l y n') c ↔
      (l.parentId = .str y ∧ (c ∈ l.grandchildIds ∨ (ListsId n' c ∧ c ≠ x))) ∨
        (l.parentId ≠ .str y ∧ ListsId n' c)) := by
    intro y n' c hn'
    rw [hparent]
    rcases hadopter with ⟨p, mp, hp, hmp, hadopt⟩ | ⟨hnone, hadopt⟩
    · rw [ListsId, messageAfter_childrenIds_field, hadopt]
      dsimp only
      by_cases hy : y = p
      · subst hy
        rw [hn'] at hmp
        cases hmp
        simp only [if_true, Links.adopted, Json.elems, List.mem_append, List.mem_filter,
          List.mem_map, Json.str.injEq, exists_eq_right, hp, true_and, ne_eq, not_true, false_and,
          or_false, decide_eq_true_eq, ListsId]
        exact or_comm
      · have hne : m.field "parentId" ≠ .str y := by
          rw [hp]
          exact fun heq => hy (Json.str.inj heq).symm
        simp only [if_neg hy, hne, false_and, ne_eq, not_false_eq_true, true_and, false_or,
          ListsId]
    · have hne : m.field "parentId" ≠ .str y := hnone y (Dict.mem_iff_exists.mpr ⟨n', hn'⟩)
      rw [ListsId, messageAfter_childrenIds_field, hadopt]
      simp only [hne, false_and, ne_eq, not_false_eq_true, true_and, false_or, ListsId]
  refine ⟨fun y n hn => ?_, fun y n hn => ?_, fun y n c n' hn hn' hl => ?_,
    fun y n c n' hn hn' hp hc => ?_⟩
  · obtain ⟨-, n', hn', rfl⟩ := hget hn
    rw [messageAfter_childrenIds_field]
    cases l.adopter with
    | none => exact h.lists y n' hn'
    | some a =>
      dsimp only
      split
      · exact ⟨_, rfl⟩
      · exact h.lists y n' hn'
  · obtain ⟨-, n', hn', rfl⟩ := hget hn
    obtain ⟨hfree, hcleanParent, hcleanChildren⟩ := h.clean y n' hn'
    refine ⟨hfree, ?_, ?_⟩
    · rw [messageAfter_parentId]
      split
      · rw [hparent]
        exact (h.clean x m hm).2.1
      · exact hcleanParent
    · rcases hadopter with ⟨p, mp, hp, hmp, hadopt⟩ | ⟨-, hadopt⟩
      · rw [messageAfter_childrenIds_field, hadopt]
        dsimp only
        split
        · obtain ⟨ds, hds⟩ := h.lists p mp hmp
          have hcleanList := (h.clean p mp hmp).2.2
          rw [hds, sanitize_data_for_db, sanitizeItems_eq, Json.list.injEq] at hcleanList
          rw [Links.adopted, sanitize_data_for_db, sanitizeItems_eq, hds]
          have hall : ∀ v ∈ ((Json.list ds).elems.filter fun c => c ≠ .str x) ++
              l.grandchildIds.map Json.str, sanitize_data_for_db v = v := by
            intro v hv
            rcases List.mem_append.mp hv with hv | hv
            · exact List.map_inj_left.mp (hcleanList.trans (List.map_id ds).symm) v
                (List.mem_filter.mp hv).1
            · obtain ⟨g, hg, rfl⟩ := List.mem_map.mp hv
              obtain ⟨-, -, -, -, -, hmem⟩ := (hgrand g).mp hg
              obtain ⟨ng, hng⟩ := Dict.mem_iff_exists.mp hmem
              rw [sanitize_data_for_db, sanitize_text_of_nullFree (h.clean g ng hng).1]
          rw [List.map_congr_left hall, List.map_id']
        · exact hcleanChildren
      · rw [messageAfter_childrenIds_field, hadopt]
        exact hcleanChildren
  · obtain ⟨hy, ny, hny, rfl⟩ := hget hn
    obtain ⟨hcd, nc, hnc, rfl⟩ := hget hn'
    rw [messageAfter_parentId]
    rcases (hlists hny).mp hl with ⟨hpy, hg | ⟨hlist, -⟩⟩ | ⟨-, hlist⟩
    · rw [if_pos hg, hpy]
    · split
      · exact hpy
      · exact h.sound y ny c nc hny hnc hlist
    · have hcy := h.sound y ny c nc hny hnc hlist
      rw [if_neg]
      · exact hcy
      · intro hg
        obtain ⟨d, hd, hcd'⟩ := hgrandParent hg hnc
        rw [hcy] at hcd'
        cases hcd'
        exact hy hd
  · obtain ⟨hy, ny, hny, rfl⟩ := hget hn
    obtain ⟨hcd, nc, hnc, rfl⟩ := hget hn'
    rw [messageAfter_parentId] at hp
    rw [hlists hny]
    by_cases hg : c ∈ l.grandchildIds
    · rw [if_pos hg] at hp
      exact .inl ⟨hp, .inl hg⟩
    · rw [if_neg hg] at hp
      have hlist := h.listed y ny c nc hny hnc hp hc
      by_cases hpy : l.parentId = .str y
      · exact .inl ⟨hpy, .inr ⟨hlist, fun hcx => hcd (hdeleted.mpr (.inl hcx))⟩⟩
      · exact .inr ⟨hpy, hlist⟩

/-- A deletion that writes: the relinked map, and a current message in it. -/
theorem LinkedTree.delete {history history' : History} (h : LinkedTree history.messages waiting)
    {fuel : ℕ} {x y : String} {ids : List String}
    (hdelete : delete_message_from_history fuel history x = some (.ok (history', y :: ids))) :
    LinkedTree history'.messages waiting ∧ CurrentIn history'.messages history'.currentId := by
  unfold delete_message_from_history at hdelete
  cases hm : history.messages.get? x with
  | none =>
    rw [hm] at hdelete
    cases hdelete
  | some m =>
    rw [hm] at hdelete
    dsimp only at hdelete
    cases hread : readLinks history.messages x m with
    | error e =>
      rw [hread] at hdelete
      cases hdelete
    | ok l =>
      rw [hread] at hdelete
      dsimp only at hdelete
      cases hstart : walkStart (Chats.relink history.messages x l) l.parentId with
      | error e =>
        rw [hstart] at hdelete
        cases hdelete
      | ok child_ids =>
        rw [hstart] at hdelete
        obtain ⟨r, -, hr⟩ := Option.map_eq_some_iff.mp hdelete
        obtain ⟨current_id, -, hr⟩ := bind_eq_ok.mp hr
        obtain ⟨here, hhere, hr⟩ := bind_eq_ok.mp hr
        cases hr
        refine ⟨h.relink hm hread, ?_⟩
        refine @currentIn_ok _ current_id _ (.ok .null) (fun v hv => ?_) ?_
        · cases hv
          exact .inl rfl
        · rw [currentIn, hhere]
          cases here <;> rfl

/-! ## Runs -/

/-- A map with the same links agrees with the same calls. -/
theorem LinksAgree.congr {history history' : History} {change : Change}
    (hlinks : SameLinks history.messages history'.messages) (h : LinksAgree history change) :
    LinksAgree history' change := by
  cases change with
  | merge => exact h
  | delete => trivial
  | upsert x message now =>
    obtain ⟨hx, hagree⟩ := h
    refine ⟨hx, ?_⟩
    have hget := hlinks x
    cases hm : history.messages.get? x with
    | none =>
      rw [hm] at hagree hget
      rw [Option.map_none, eq_comm, Option.map_eq_none_iff] at hget
      rw [hget]
      refine ⟨?_, fun p m' hm' hl => ?_, fun c m' hm' => ?_, hagree.clean⟩
      · rcases hagree.parent with hnull | ⟨p, hp, hstr⟩
        · exact .inl hnull
        · exact .inr ⟨p, (hlinks.mem_iff p).mp hp, hstr⟩
      · obtain ⟨n, hn, -, hchildren⟩ := hlinks.get? hm'
        rcases hagree.only p n hn ((listsId_congr hchildren x).mpr hl) with hp | ⟨hnull, honly⟩
        · exact .inl hp
        · refine .inr ⟨hnull, fun q mq hmq hlq => ?_⟩
          obtain ⟨nq, hnq, -, hchildrenq⟩ := hlinks.get? hmq
          exact honly q nq hnq ((listsId_congr hchildrenq x).mpr hlq)
      · obtain ⟨n, hn, hparent, -⟩ := hlinks.get? hm'
        rw [← hparent]
        exact hagree.children c n hn
    | some old =>
      obtain ⟨old', hold', hparent, hchildren⟩ := hlinks.symm.get? hm
      rw [hm] at hagree
      rw [hold']
      refine ⟨by rw [hparent]; exact hagree.parent, ?_⟩
      rcases hagree.children with hnone | ⟨cs, hcs, hclean, hkids⟩
      · exact .inl hnone
      · refine .inr ⟨cs, hcs, hclean, fun c m' hm' => ?_⟩
        obtain ⟨n, hn, hparentn, -⟩ := hlinks.get? hm'
        rw [← hparentn, listsId_congr hchildren c]
        exact hkids c n hn

/-- More ids may wait. -/
theorem LinkedTree.mono (h : LinkedTree messages waiting) {waiting' : List String}
    (hsub : waiting ⊆ waiting') : LinkedTree messages waiting' where
  lists := h.lists
  clean := h.clean
  sound := h.sound
  listed p m c m' hm hm' hp hc := h.listed p m c m' hm hm' hp fun hw => hc (hsub hw)

/-- The invariant of the stored history. -/
def StoredTree (s : History × List String) : Prop :=
  LinkedTree s.1.messages s.2 ∧ CurrentIn s.1.messages s.1.currentId

/-- An upsert that agrees with the links keeps the invariant. -/
theorem storedTree_upsert {history : History} {x : String} {message : Dict String Json}
    (htree : LinkedTree history.messages waiting)
    (hcurrent : CurrentIn history.messages history.currentId) {now : ℤ}
    (hagree : LinksAgree history (.upsert x message now)) (now' : ℤ) :
    StoredTree (storedAfter history (upsertHistory history x message now'),
      waitingAfter history waiting (.upsert x message now')) := by
  obtain ⟨hx, hagree⟩ := hagree
  have hstore : ∀ {m : Message} {waiting' : List String},
      LinkedTree (history.messages.set x m) waiting' →
      StoredTree (History.sanitize ⟨history.messages.set x m, .str x⟩, waiting') := by
    intro m waiting' h
    have h' : LinkedTree (History.mk (history.messages.set x m) (.str x)).messages waiting' := h
    exact ⟨h'.sanitize, CurrentIn.sanitize h' (.inr ⟨x, Dict.mem_set.mpr (.inl rfl), rfl⟩)⟩
  rw [waitingAfter, upsertHistory, upsertedMessage]
  cases hm : history.messages.get? x with
  | some old =>
    rw [hm] at hagree
    rw [if_pos (Dict.mem_iff_exists.mpr ⟨old, hm⟩)]
    exact hstore (htree.update hm hagree)
  | none =>
    rw [hm] at hagree
    have hnew : x ∉ history.messages := Dict.get?_eq_none_iff.mp hm
    rw [if_neg hnew]
    have hraise : StoredTree (history,
        if unlisted history.messages x message.entries then x :: waiting else waiting) := by
      refine ⟨htree.mono fun c hc => ?_, hcurrent⟩
      split
      · exact List.mem_cons_of_mem x hc
      · exact hc
    show StoredTree (storedAfter history (newMessage history.messages x
      (sanitizeContent message).entries now' >>= fun stored =>
        pure ⟨history.messages.set x stored, .str x⟩), _)
    cases hmessage : newMessage history.messages x (sanitizeContent message).entries now' with
    | error e => exact hraise
    | ok stored =>
      obtain ⟨parent_id, hfind, hmessage⟩ := bind_eq_ok.mp hmessage
      obtain ⟨parent, -, hmessage⟩ := bind_eq_ok.mp hmessage
      obtain ⟨output_role, -, hmessage⟩ := bind_eq_ok.mp hmessage
      cases hmessage
      exact hstore (htree.create hx hnew hagree hfind _ _)

/-- **One call** that agrees with the links keeps the invariant. -/
theorem storedTree_changeStep {greater : Json → Json → Except PyErr Bool}
    {s s' : History × List String} {change : Change} (h : StoredTree s)
    (hagree : LinksAgree s.1 change) (hstep : changeStep greater s change = some s') :
    StoredTree s' := by
  obtain ⟨htree, hcurrent⟩ := h
  unfold changeStep at hstep
  cases hread : readHistory greater s.1 with
  | error e =>
    rw [hread] at hstep
    cases hstep
    exact ⟨htree, hcurrent⟩
  | ok history =>
    rw [hread] at hstep
    dsimp only at hstep
    obtain ⟨hlinks, htree, hcurrent⟩ := readHistory_tree hread htree hcurrent
    have hagree := hagree.congr hlinks
    obtain ⟨history', happly, hstep⟩ := Option.map_eq_some_iff.mp hstep
    cases hstep
    cases change with
    | upsert x message now =>
      cases happly
      exact storedTree_upsert htree hcurrent hagree now
    | merge incoming currentId =>
      cases happly
      show StoredTree (storedAfter history (merge_history history incoming currentId),
        waitingAfter history s.2 (.merge incoming currentId))
      rw [waitingAfter]
      cases hmerge : merge_history history incoming currentId with
      | error e => exact ⟨htree, hcurrent⟩
      | ok history' =>
        obtain ⟨htree', hcurrent'⟩ := htree.merge hagree hmerge
        exact ⟨htree'.sanitize, CurrentIn.sanitize htree' hcurrent'⟩
    | delete fuel x =>
      obtain ⟨r, hdelete, rfl⟩ := Option.map_eq_some_iff.mp happly
      match r, hdelete with
      | .error e, _ => exact ⟨htree, hcurrent⟩
      | .ok (_, []), _ => exact ⟨htree, hcurrent⟩
      | .ok (history', _ :: _), hdelete =>
        obtain ⟨htree', hcurrent'⟩ := htree.delete hdelete
        exact ⟨htree'.sanitize, CurrentIn.sanitize htree' hcurrent'⟩

/-- **In every run whose calls agree with the stored links** the two link fields mirror each other,
apart from the ids that wait, and the current message is none or in the map. -/
theorem treeConsistent_of_exec (greater : Json → Json → Except PyErr Bool) {changes : List Change}
    {history : History} {waiting : List String}
    (hagree : StepsMeet (changeStep greater) (fun s change => LinksAgree s.1 change)
      (⟨.empty, .null⟩, []) changes)
    (hrun : exec (changeStep greater) (⟨.empty, .null⟩, []) changes = some (history, waiting)) :
    TreeConsistent history waiting := by
  have hempty : StoredTree (⟨.empty, .null⟩, []) := by
    refine ⟨⟨?_, ?_, ?_, ?_⟩, .inl rfl⟩
    · exact fun p m hm => nomatch hm
    · exact fun p m hm => nomatch hm
    · exact fun p m c m' hm => nomatch hm
    · exact fun p m c m' hm => nomatch hm
  obtain ⟨htree, hcurrent⟩ := exec_invariant_of_stepsMeet
    (fun s change s' hs hC hstep => storedTree_changeStep hs hC hstep) hempty hagree hrun
  exact ⟨htree.sound, htree.listed, hcurrent⟩

/-- `>` on integers. -/
def intGreater : Json → Json → Except PyErr Bool
  | .int a, .int b => .ok (decide (b < a))
  | _, _ => .error .typeError

/-- A message with a role and a parent. -/
def messageOf (role : String) (parentId : Json) : Dict String Json :=
  ⟨[("role", .str role), ("parentId", parentId)], (by decide : ["role", "parentId"].Nodup)⟩

/-- A message is created, a client's history with an answer is merged, and the answer deleted. -/
def plainRun : List Change :=
  [.upsert "u" (messageOf "user" .null) 1,
    .merge ⟨[("a", .dict (messageOf "assistant" (.str "u")).entries)], by decide⟩ (.str "a"),
    .delete 3 "a"]

theorem plainRun_consistent : ∃ history waiting,
    exec (changeStep intGreater) (⟨.empty, .null⟩, []) plainRun = some (history, waiting) ∧
      TreeConsistent history waiting := by
  obtain ⟨⟨history, waiting⟩, hrun⟩ := Option.isSome_iff_exists.mp
    (by decide :
      (exec (changeStep intGreater) (⟨.empty, .null⟩, []) plainRun).isSome)
  refine ⟨history, waiting, hrun, treeConsistent_of_exec intGreater ?_ hrun⟩
  have hcreate : CreatesAgreeing .empty "u" (messageOf "user" .null).entries :=
    ⟨.inl rfl, fun p m hm => (nomatch hm), fun c m hm => (nomatch hm), fun v hv => (nomatch hv)⟩
  refine ⟨⟨by decide, hcreate⟩, fun s _ => ⟨fun c m hm => ?_, fun s' _ =>
    ⟨trivial, fun s'' _ => trivial⟩⟩⟩
  obtain ⟨rfl, hm⟩ : c = "a" ∧ Json.dict (messageOf "assistant" (.str "u")).entries = .dict m := by
    by_cases hc : "a" = c
    · subst hc
      exact ⟨rfl, Option.some.inj hm⟩
    · rw [Dict.get?, Assoc.get?_cons_ne hc] at hm
      cases hm
  cases hm
  exact ⟨by decide, by decide⟩

/-- **Upserting a message does not tell its parent**: a child of an existing message that is not in
the message's child list. -/
theorem upsert_child_not_listed : ∃ changes history waiting,
    changes = [.upsert "u" (messageOf "user" .null) 1,
      .upsert "a" (messageOf "assistant" (.str "u")) 2] ∧
    exec (changeStep intGreater) (⟨.empty, .null⟩, []) changes = some (history, waiting) ∧
      ¬ ∀ p m c m', history.messages.get? p = some m → history.messages.get? c = some m' →
        (ListsId m c ↔ m'.field "parentId" = .str p) := by
  obtain ⟨⟨history, waiting⟩, hrun⟩ := Option.isSome_iff_exists.mp
    (by decide : (exec (changeStep intGreater) (⟨.empty, .null⟩, [])
      [.upsert "u" (messageOf "user" .null) 1,
        .upsert "a" (messageOf "assistant" (.str "u")) 2]).isSome)
  refine ⟨_, history, waiting, rfl, hrun, fun hmirror => ?_⟩
  have hlinks : (exec (changeStep intGreater) (⟨.empty, .null⟩, [])
      [.upsert "u" (messageOf "user" .null) 1,
        .upsert "a" (messageOf "assistant" (.str "u")) 2]).map (fun s =>
          ((s.1.messages.get? "u").map fun m => decide (ListsId m "a"),
            (s.1.messages.get? "a").map fun m => m.field "parentId")) =
      some (some false, some (.str "u")) := by decide
  rw [hrun] at hlinks
  obtain ⟨hu, ha⟩ := Prod.mk.inj (Option.some.inj hlinks)
  obtain ⟨m, hm, hnot⟩ := Option.map_eq_some_iff.mp hu
  obtain ⟨m', hm', hparent⟩ := Option.map_eq_some_iff.mp ha
  exact of_decide_eq_false hnot ((hmirror "u" m "a" m' hm hm').mpr hparent)

end OpenLaunch.Chats
