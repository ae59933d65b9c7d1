import OpenLaunch.Chats.HistoryDelete
import Mathlib.Data.List.ReduceOption

/-! # Histories as forests

A history is a consistent forest when its two link fields mirror each other and the parent links
have no cycle. On such a history the deletion never raises or loops; it contracts the forest to the
messages that survive and leaves `currentId` at a leaf. -/

namespace OpenLaunch.Chats

open Python Forest

variable {messages : Dict String Message} {message_id : String}

/-- The id in the `parentId` of a message. -/
def parentOf (messages : Dict String Message) (c : String) : Option String :=
  (messages.get? c).bind fun m => (m.field "parentId").str?

/-- The entries of the `childrenIds` of a message. -/
def childIds (messages : Dict String Message) (p : String) : List Json :=
  ((messages.get? p).map fun m => (m.field "childrenIds").elems).getD []

/-- **A consistent forest**: `c` is in `childrenIds` of `p` exactly when the `parentId` of `c` is
`p`, parents are present or `None`, and there is no cycle. -/
structure Consistent (messages : Dict String Message) : Prop where
  /-- `childrenIds` is a list of ids, or missing. -/
  childrenIds_list : ∀ p m, messages.get? p = some m →
    m.field "childrenIds" = .null ∨ ∃ cs : List String, m.field "childrenIds" = .list (cs.map .str)
  /-- The two link fields mirror each other. -/
  mirror : ∀ p ∈ messages, ∀ c, .str c ∈ childIds messages p ↔ parentOf messages c = some p
  /-- Parents are present or `None`. -/
  parent_present : ∀ c m, messages.get? c = some m →
    m.field "parentId" = .null ∨ ∃ p ∈ messages, m.field "parentId" = .str p
  /-- No message is its own ancestor. -/
  acyclic : Acyclic (parentOf messages)

/-- `currentId` is a leaf of the map, or `None` exactly when the map is empty. -/
def CurrentIsLeaf (history : History) : Prop :=
  (history.currentId = .null ∧ history.messages.entries = []) ∨
    ∃ c ∈ history.messages, history.currentId = .str c ∧ childIds history.messages c = []

/-- What deleting `message_id` from a consistent forest is to achieve. -/
structure DeletedCorrectly (before : Dict String Message) (message_id : String)
    (after : History) : Prop where
  /-- The result is a consistent forest again. -/
  consistent : Consistent after.messages
  /-- It contains exactly the messages other than the deleted one and its children. -/
  mem_iff : ∀ x, x ∈ after.messages ↔ x ∈ before ∧ ¬ Removed (parentOf before) message_id x
  /-- Apart from the links, its messages are the ones before. -/
  fields : ∀ x m', after.messages.get? x = some m' → ∃ m, before.get? x = some m ∧
    ∀ k, k ≠ "parentId" → k ≠ "childrenIds" → m'.field k = m.field k
  /-- Each survivor keeps its surviving ancestors in the same order. -/
  ancestors : ∀ x ∈ after.messages, ∀ l, Ancestors (parentOf before) x l →
    Ancestors (parentOf after.messages) x (l.filter fun y => y ∈ after.messages)
  /-- `currentId` is a leaf, or `None` exactly when nothing is left. -/
  current : CurrentIsLeaf after

/-! ## Reading the links of a consistent forest -/

theorem parentOf_eq_some {c p : String} : parentOf messages c = some p ↔
    ∃ m, messages.get? c = some m ∧ m.field "parentId" = .str p := by
  simp [parentOf, Option.bind_eq_some_iff, Json.str?_eq_some]

theorem parentOf_of_get? {c : String} {m : Message} (h : messages.get? c = some m) :
    parentOf messages c = (m.field "parentId").str? := by simp [parentOf, h]

theorem childIds_of_get? {p : String} {m : Message} (h : messages.get? p = some m) :
    childIds messages p = (m.field "childrenIds").elems := by simp [childIds, h]

namespace Consistent

theorem mem_of_parentOf (h : Consistent messages) {c p : String}
    (hp : parentOf messages c = some p) : c ∈ messages ∧ p ∈ messages := by
  obtain ⟨m, hm, hf⟩ := parentOf_eq_some.mp hp
  refine ⟨Dict.mem_iff_exists.mpr ⟨m, hm⟩, ?_⟩
  rcases h.parent_present c m hm with hnull | ⟨q, hq, hfq⟩
  · rw [hnull] at hf; cases hf
  · rw [hfq] at hf; cases hf; exact hq

/-- The ancestors of a message are messages. -/
theorem mem_of_ancestors (h : Consistent messages) {x : String} {l : List String}
    (hl : Ancestors (parentOf messages) x l) : ∀ y ∈ l, y ∈ messages := by
  induction hl with
  | root => simp
  | step hp _ ih =>
    intro y hy
    rcases List.mem_cons.mp hy with rfl | hy
    · exact (h.mem_of_parentOf hp).2
    · exact ih y hy

/-- The child lists of a consistent forest, as lists of ids. -/
theorem exists_kids (h : Consistent messages) : ∃ kids : String → List String,
    (∀ p, childIds messages p = (kids p).map .str) ∧
      ∀ p c, c ∈ kids p ↔ parentOf messages c = some p := by
  have hlist : ∀ p, ∃ cs : List String, childIds messages p = cs.map .str := by
    intro p
    cases hm : messages.get? p with
    | none => exact ⟨[], by simp [childIds, hm]⟩
    | some m =>
      rw [childIds_of_get? hm]
      rcases h.childrenIds_list p m hm with hnull | ⟨cs, hcs⟩
      · exact ⟨[], by rw [hnull]; rfl⟩
      · exact ⟨cs, by rw [hcs]; rfl⟩
  choose kids hkids using hlist
  refine ⟨kids, hkids, fun p c => ?_⟩
  by_cases hp : p ∈ messages
  · rw [← h.mirror p hp c, hkids p]
    simp
  · have hnil : kids p = [] := by
      have := hkids p
      rw [childIds, Dict.get?_eq_none_iff.mpr hp] at this
      simpa using this.symm
    rw [hnil]
    exact ⟨fun hc => by simp at hc, fun hc => absurd (h.mem_of_parentOf hc).2 hp⟩

end Consistent

/-- A list of present ids is read as it is. -/
theorem presentIds_of_mem {cs : List String} (h : ∀ c ∈ cs, c ∈ messages) :
    presentIds messages (.list (cs.map .str)) = .ok cs := by
  have hread : (cs.map Json.str).mapM (presentId messages) = .ok (cs.map some) := by
    rw [List.mapM_map]
    refine mapM_eq_ok fun c hc => ?_
    simp [presentId, inMessages, h c hc, Json.str?, bind, Except.bind, pure, Except.pure]
  simp [presentIds, hread, bind, Except.bind, pure, Except.pure, List.reduceOption]

/-- The `childrenIds` field of a message of a consistent forest reads as its children. -/
theorem presentIds_field (h : Consistent messages) {x : String} {m : Message} {cs : List String}
    (hm : messages.get? x = some m) (hcs : childIds messages x = cs.map .str) :
    presentIds messages (m.field "childrenIds") = .ok cs := by
  have hmem : ∀ c ∈ cs, c ∈ messages := fun c hc =>
    (h.mem_of_parentOf ((h.mirror x (Dict.mem_iff_exists.mpr ⟨m, hm⟩) c).mp (by simp [hcs, hc]))).1
  rw [childIds_of_get? hm] at hcs
  rcases h.childrenIds_list x m hm with hnull | ⟨ds, hds⟩
  · rw [hnull] at hcs ⊢
    obtain rfl : cs = [] := by simpa [Json.elems] using hcs.symm
    rfl
  · rw [hds] at hcs ⊢
    obtain rfl : ds = cs := by simpa [Json.elems] using hcs
    exact presentIds_of_mem hmem

/-- A loop over the children of a message of a consistent forest. -/
theorem iter_childrenIds (h : Consistent messages) {x : String} {m : Message}
    (hm : messages.get? x = some m) :
    ((m.field "childrenIds").or (.list [])).iter = .ok (childIds messages x) := by
  rw [childIds_of_get? hm]
  rcases h.childrenIds_list x m hm with hnull | ⟨cs, hcs⟩
  · rw [hnull]; rfl
  · rw [hcs, Json.iter_or_list]; rfl

section Deletion

variable {m : Message} {kids : String → List String}

/-- The links around `message_id`, by the child lists of the forest. -/
def forestLinks (messages : Dict String Message) (message_id : String) (m : Message)
    (kids : String → List String) : Links where
  parentId := m.field "parentId"
  childIds := kids message_id
  grandchildIds := (kids message_id).flatMap kids
  adopter := (parentOf messages message_id).map fun p =>
    (p, ((kids p).filter fun c => c ≠ message_id).map .str)

/-- On a consistent forest the links are read without an exception. -/
theorem readLinks_of_consistent (h : Consistent messages)
    (hm : messages.get? message_id = some m) (hkids : ∀ p, childIds messages p = (kids p).map .str)
    (hmem : ∀ p c, c ∈ kids p ↔ parentOf messages c = some p) :
    readLinks messages message_id m = .ok (forestLinks messages message_id m kids) := by
  have hchild := presentIds_field h hm (hkids message_id)
  have hgrand : (kids message_id).mapM (fun child_id =>
      presentIds messages (((messages.get? child_id).getD []).field "childrenIds")) =
        .ok ((kids message_id).map kids) := by
    refine mapM_eq_ok fun c hc => ?_
    obtain ⟨mc, hmc⟩ := Dict.mem_iff_exists.mp (h.mem_of_parentOf ((hmem _ _).mp hc)).1
    rw [hmc]
    exact presentIds_field h hmc (hkids c)
  unfold readLinks forestLinks
  rw [hchild]
  simp only [bind, Except.bind, hgrand, pure, Except.pure]
  rcases h.parent_present message_id m hm with hnull | ⟨p, hp, hfield⟩
  · rw [parentOf_of_get? hm, hnull]
    simp [inMessages, Json.key, bind, Except.bind, pure, Except.pure, Json.str?, List.flatMap]
  · obtain ⟨mp, hmp⟩ := Dict.mem_iff_exists.mp hp
    have hiter := iter_childrenIds h hmp
    rw [parentOf_of_get? hm, hfield]
    simp [inMessages, bind, Except.bind, pure, Except.pure, Json.str?, hp, hmp, hiter, hkids,
      List.flatMap, List.filter_map, Function.comp_def]

/-! ## The contracted forest -/

variable (h : Consistent messages) (hm : messages.get? message_id = some m)
  (hkids : ∀ p, childIds messages p = (kids p).map .str)
  (hmem : ∀ p c, c ∈ kids p ↔ parentOf messages c = some p)

include hmem in
theorem mem_deletedIds (x : String) :
    x ∈ (forestLinks messages message_id m kids).deletedIds message_id ↔
      Removed (parentOf messages) message_id x := by
  simp [Links.deletedIds, forestLinks, Removed, hmem]

include hmem in
theorem mem_grandchildIds (x : String) :
    x ∈ (kids message_id).flatMap kids ↔
      (parentOf messages x).bind (parentOf messages) = some message_id := by
  simp only [List.mem_flatMap, hmem, Option.bind_eq_some_iff]
  exact ⟨fun ⟨c, hc, hx⟩ => ⟨c, hx, hc⟩, fun ⟨c, hx, hc⟩ => ⟨c, hc, hx⟩⟩

/-- The map after the deletion of `message_id`. -/
abbrev after (messages : Dict String Message) (message_id : String) (m : Message)
    (kids : String → List String) : Dict String Message :=
  relink messages message_id (forestLinks messages message_id m kids)

include hmem in
theorem get?_after (x : String) : (after messages message_id m kids).get? x =
    if Removed (parentOf messages) message_id x then none
    else (messages.get? x).map (messageAfter (forestLinks messages message_id m kids) x) := by
  rw [get?_relink]
  simp only [mem_deletedIds hmem]

include hmem in
theorem mem_after (x : String) : x ∈ after messages message_id m kids ↔
    x ∈ messages ∧ ¬ Removed (parentOf messages) message_id x := by
  rw [Dict.mem_iff_isSome, get?_after hmem, Dict.mem_iff_isSome]
  split <;> simp_all

include hm hmem in
/-- The parents of the survivors are the spliced ones. -/
theorem parentOf_after {x : String} (hx : ¬ Removed (parentOf messages) message_id x) :
    parentOf (after messages message_id m kids) x = splice (parentOf messages) message_id x := by
  have hparent : (m.field "parentId").str? = parentOf messages message_id :=
    (parentOf_of_get? hm).symm
  unfold splice
  simp only [← mem_grandchildIds hmem]
  rw [parentOf, get?_after hmem, if_neg hx]
  cases hx' : messages.get? x with
  | none =>
    have hnone : parentOf messages x = none := by simp [parentOf, hx']
    simp [hnone, mem_grandchildIds hmem]
  | some mx =>
    simp only [Option.map_some, Option.bind_some, messageAfter_parentId]
    by_cases hg : x ∈ (kids message_id).flatMap kids
    · rw [if_pos hg, if_pos (by exact hg)]
      exact hparent
    · rw [if_neg hg, if_neg (by exact hg)]
      exact (parentOf_of_get? hx').symm

include hmem hkids in
/-- The child lists of the survivors: the parent of the deleted message adopts its grandchildren. -/
theorem childIds_after {x : String} (hx : ¬ Removed (parentOf messages) message_id x)
    (hxm : x ∈ messages) :
    childIds (after messages message_id m kids) x =
      (if parentOf messages message_id = some x then
        (kids x).filter (fun c => c ≠ message_id) ++ (kids message_id).flatMap kids
      else kids x).map .str := by
  obtain ⟨mx, hmx⟩ := Dict.mem_iff_exists.mp hxm
  have hown : (mx.field "childrenIds").elems = (kids x).map .str := by
    rw [← hkids, childIds_of_get? hmx]
  rw [childIds, get?_after hmem, if_neg hx, hmx]
  simp only [Option.map_some, Option.getD_some, messageAfter_childrenIds_field]
  unfold forestLinks
  cases hp : parentOf messages message_id with
  | none => simpa using hown
  | some p =>
    by_cases hxp : x = p
    · subst hxp; simp [Links.adopted, Json.elems]
    · simpa [hxp, Ne.symm hxp] using hown

include h hmem in
/-- The child list a survivor is left with holds exactly the survivors whose new parent it is. -/
theorem mem_kids_after {p : String} (hp : ¬ Removed (parentOf messages) message_id p) (c : String) :
    c ∈ (if parentOf messages message_id = some p then
        (kids p).filter (fun c => c ≠ message_id) ++ (kids message_id).flatMap kids
      else kids p) ↔
      ¬ Removed (parentOf messages) message_id c ∧
        splice (parentOf messages) message_id c = some p := by
  have hgrand := @mem_grandchildIds messages message_id kids hmem c
  unfold splice
  by_cases hgc : (parentOf messages c).bind (parentOf messages) = some message_id
  · -- a grandchild moves to the parent of the deleted message
    obtain ⟨d, hcd, hd⟩ := Option.bind_eq_some_iff.mp hgc
    have hcr : ¬ Removed (parentOf messages) message_id c := by
      rintro (rfl | hc)
      · exact h.acyclic.ne_grandparent hcd hd rfl
      · rw [hcd] at hc; cases hc; exact h.acyclic.ne_parent hd rfl
    rw [if_pos hgc]
    split
    · rename_i hpar
      simp [hgrand, hgc, hcr, hpar]
    · rename_i hpar
      have hdp : d ≠ p := fun hdp => hp (.inr (hdp ▸ hd))
      simp [hmem, hcd, hdp, hpar]
  · rw [if_neg hgc]
    split
    · rename_i hpar
      have hcp : parentOf messages c = some p → parentOf messages c ≠ some message_id := by
        intro hcp hcm
        rw [hcp] at hcm; cases hcm; exact hp (.inl rfl)
      simp only [List.mem_append, List.mem_filter, hmem, hgrand, hgc, or_false, Removed,
        decide_eq_true_eq]
      tauto
    · rename_i hpar
      have hcr : parentOf messages c = some p → ¬ Removed (parentOf messages) message_id c := by
        rintro hcp (rfl | hcm)
        · exact hpar hcp
        · rw [hcp] at hcm; cases hcm; exact hp (.inl rfl)
      rw [hmem]
      exact ⟨fun hcp => ⟨hcr hcp, hcp⟩, fun hcp => hcp.2⟩

include h hm hkids hmem in
/-- **The deletion keeps the forest consistent.** -/
theorem consistent_after : Consistent (after messages message_id m kids) := by
  have hgone : ∀ x p, ¬ Removed (parentOf messages) message_id x →
      splice (parentOf messages) message_id x = some p → p ∈ after messages message_id m kids := by
    intro x p hx hp
    have hpr := h.acyclic.not_removed_splice hx hp
    refine (mem_after hmem p).mpr ⟨?_, hpr⟩
    unfold splice at hp
    split at hp
    · exact (h.mem_of_parentOf hp).2
    · exact (h.mem_of_parentOf hp).2
  refine ⟨?_, ?_, ?_, ?_⟩
  · intro x mx hmx
    have hx : x ∈ after messages message_id m kids := Dict.mem_iff_exists.mpr ⟨mx, hmx⟩
    rw [get?_after hmem] at hmx
    split at hmx
    · cases hmx
    · obtain ⟨m₀, hm₀, rfl⟩ := Option.map_eq_some_iff.mp hmx
      rw [messageAfter_childrenIds_field]
      unfold forestLinks
      cases parentOf messages message_id with
      | none => exact h.childrenIds_list x m₀ hm₀
      | some p =>
        simp only [Option.map_some]
        split
        · exact .inr ⟨_, by rw [Links.adopted, ← List.map_append]⟩
        · exact h.childrenIds_list x m₀ hm₀
  · intro p hp c
    obtain ⟨hpm, hpr⟩ := (mem_after hmem p).mp hp
    rw [childIds_after hkids hmem hpr hpm]
    rw [List.mem_map_of_injective (fun _ _ => Json.str.inj), mem_kids_after h hmem hpr]
    by_cases hc : Removed (parentOf messages) message_id c
    · have hnone : parentOf (after messages message_id m kids) c = none := by
        rw [parentOf, get?_after hmem, if_pos hc]; rfl
      simp [hc, hnone]
    · rw [parentOf_after hm hmem hc]
      exact and_iff_right hc
  · intro c mc hmc
    have hcr : ¬ Removed (parentOf messages) message_id c := by
      intro hcr
      rw [get?_after hmem, if_pos hcr] at hmc
      cases hmc
    have hsplice := parentOf_after hm hmem hcr
    rw [parentOf_of_get? hmc] at hsplice
    rw [get?_after hmem, if_neg hcr] at hmc
    obtain ⟨m₀, hm₀, rfl⟩ := Option.map_eq_some_iff.mp hmc
    rw [messageAfter_parentId] at hsplice ⊢
    have hform : ∀ v : Json, (v = .null ∨ ∃ p ∈ messages, v = .str p) →
        v.str? = splice (parentOf messages) message_id c →
        v = .null ∨ ∃ p ∈ after messages message_id m kids, v = .str p := by
      rintro v (rfl | ⟨p, -, rfl⟩) hv
      · exact .inl rfl
      · exact .inr ⟨p, hgone c p hcr hv.symm, rfl⟩
    split at hsplice
    · rename_i hg
      rw [if_pos hg]
      exact hform _ (h.parent_present message_id m hm) hsplice
    · rename_i hg
      rw [if_neg hg]
      exact hform _ (h.parent_present c m₀ hm₀) hsplice
  · refine h.acyclic.of_shortcut fun x p hp => ?_
    by_cases hx : Removed (parentOf messages) message_id x
    · rw [parentOf, get?_after hmem, if_pos hx] at hp; cases hp
    · rw [parentOf_after hm hmem hx] at hp
      exact splice_shortcut hp

include h hm hmem in
theorem ancestors_after {x : String} (hx : x ∈ after messages message_id m kids) {l : List String}
    (hl : Ancestors (parentOf messages) x l) :
    Ancestors (parentOf (after messages message_id m kids)) x
      (l.filter fun y => y ∈ after messages message_id m kids) := by
  have hup := h.mem_of_ancestors hl
  have hfilter : (l.filter fun y => y ∈ after messages message_id m kids) =
      l.filter fun y => ¬ Removed (parentOf messages) message_id y :=
    List.filter_congr fun y hy => by simp [mem_after hmem, hup y hy]
  have hxr := ((mem_after hmem x).mp hx).2
  rw [hfilter]
  refine (hl.splice h.acyclic hxr).congr fun y hy => (parentOf_after hm hmem ?_).symm
  rcases hy with rfl | hy
  · exact hxr
  · simpa using (List.mem_filter.mp hy).2

end Deletion

/-! ## The walk down a consistent forest -/

namespace Consistent

variable {ms : Dict String Message} (h : Consistent ms)

include h

/-- `childrenIds` of a message reads as a list of children or as nothing. -/
theorem childrenIds_cases {x : String} {m : Message} (hm : ms.get? x = some m) :
    (childIds ms x = [] ∧ m.childrenIds.truthy = false) ∨
      ∃ cs : List String, cs ≠ [] ∧ childIds ms x = cs.map .str ∧
        m.childrenIds = .list (cs.map .str) := by
  rw [childIds_of_get? hm]
  rcases h.childrenIds_list x m hm with hnull | ⟨cs, hcs⟩
  · refine .inl ⟨by rw [hnull]; rfl, ?_⟩
    unfold Message.field at hnull
    unfold Message.childrenIds
    cases hf : Assoc.get? m "childrenIds" with
    | none => rfl
    | some v => rw [hf] at hnull; simp_all
  · have hv := m.childrenIds_of_field hcs (by simp)
    rw [hcs, hv]
    cases cs with
    | nil => exact .inl ⟨rfl, rfl⟩
    | cons c cs => exact .inr ⟨c :: cs, by simp, rfl, rfl⟩

/-- A step of the walk goes from a message to one of its children. -/
theorem parentOf_lastChild {x y : String} (hxy : lastChild ms x = some y) :
    parentOf ms y = some x := by
  obtain ⟨m, hm, hlast⟩ := Option.bind_eq_some_iff.mp hxy
  rcases h.childrenIds_cases hm with ⟨-, hv⟩ | ⟨cs, -, hcs, hv⟩
  · simp [lastId, hv] at hlast
  · rw [hv, lastId_list_str] at hlast
    refine (h.mirror x (Dict.mem_iff_exists.mpr ⟨m, hm⟩) y).mp ?_
    rw [hcs]
    exact List.mem_map_of_mem (List.mem_of_getLast? hlast)

/-- The walk from a list of messages ends at a leaf, or where it was if the list is empty. -/
theorem walkToLeaf_leaf {n : ℕ} {c : Json} {ids : List String} {r : Except PyErr Json}
    (hids : ∀ i ∈ ids, i ∈ ms) (hr : walkToLeaf ms n c (.list (ids.map .str)) = some r) :
    (ids = [] ∧ r = .ok c) ∨ ∃ s ∈ ms, r = .ok (.str s) ∧ childIds ms s = [] := by
  induction n generalizing c ids with
  | zero => simp [walkToLeaf] at hr
  | succ n ih =>
    cases hlast : ids.getLast? with
    | none =>
      obtain rfl : ids = [] := by simpa using hlast
      exact .inl ⟨rfl, by simpa [walkToLeaf, eq_comm] using hr⟩
    | some s =>
      have hs : s ∈ ms := hids s (List.mem_of_getLast? hlast)
      obtain ⟨m, hm⟩ := Dict.mem_iff_exists.mp hs
      rw [walkToLeaf_of_lastId_some ((lastId_list_str ids).trans hlast), hm] at hr
      rcases h.childrenIds_cases hm with ⟨hnil, hv⟩ | ⟨cs, hne, hcs, hv⟩
      · refine .inr ⟨s, hs, ?_, hnil⟩
        cases n with
        | zero => simp [walkToLeaf] at hr
        | succ n => simpa [walkToLeaf, hv, eq_comm] using hr
      · simp only [Option.map_some, Option.getD_some, hv] at hr
        have hmem : ∀ i ∈ cs, i ∈ ms := fun i hi =>
          (h.mem_of_parentOf ((h.mirror s hs i).mp (by simp [hcs, hi]))).1
        exact .inr ((ih hmem hr).resolve_left fun hnil => hne hnil.1)

end Consistent

/-! ## The deletion as a whole -/

/-- What is claimed of a deletion: it terminates, and on a consistent forest it achieves its aim. -/
def DeletesAsClaimed (history : History) (message_id : String) : Prop :=
  Terminates history message_id ∧
    (Consistent history.messages → ∃ fuel after deleted,
      delete_message_from_history fuel history message_id = some (.ok (after, deleted)) ∧
        DeletedCorrectly history.messages message_id after)

/-- In a consistent forest the walk meets no cycle. -/
theorem Consistent.not_walkCycles {history : History} (h : Consistent history.messages)
    (message_id : String) : ¬ WalkCycles history message_id := by
  rintro ⟨m, l, x, hm, hl, -, hrev⟩
  obtain ⟨kids, hkids, hmem⟩ := h.exists_kids
  rw [readLinks_of_consistent h hm hkids hmem] at hl
  cases hl
  have hafter := consistent_after h hm hkids hmem
  refine hafter.acyclic.not_revisits (fun y z hyz => ?_) hrev
  rw [← lastChild_relink] at hyz
  exact hafter.parentOf_lastChild hyz

/-- Deleting an id that is not in the map changes nothing. -/
theorem delete_of_not_mem {history : History} {message_id : String}
    (hid : message_id ∉ history.messages) (fuel : ℕ) :
    delete_message_from_history fuel history message_id = some (.ok (history, [])) := by
  rw [delete_message_from_history, Dict.get?_eq_none_iff.mpr hid]

/-- Where the walk comes to rest after the deletion: nowhere if nothing is left, else at a leaf. -/
theorem walk_ends {m : Message} {kids : String → List String} (h : Consistent messages)
    (hm : messages.get? message_id = some m)
    (hkids : ∀ p, childIds messages p = (kids p).map .str)
    (hmem : ∀ p c, c ∈ kids p ↔ parentOf messages c = some p) {v : Json} {n : ℕ}
    {r : Except PyErr Json}
    (hv : walkStart (after messages message_id m kids) (m.field "parentId") = .ok v)
    (hr : walkToLeaf (after messages message_id m kids) n (m.field "parentId") v = some r) :
    (r = .ok .null ∧ (after messages message_id m kids).entries = []) ∨
      ∃ s ∈ after messages message_id m kids, r = .ok (.str s) ∧
        childIds (after messages message_id m kids) s = [] := by
  have hafter := consistent_after h hm hkids hmem
  rcases h.parent_present message_id m hm with hnull | ⟨p, hp, hfield⟩
  · -- the walk starts from the roots, and without a root the forest is empty
    rw [hnull] at hv hr
    obtain ⟨ids, hids, rfl⟩ : ∃ ids : List String, (∀ i, i ∈ ids ↔
        ∃ mi, (after messages message_id m kids).get? i = some mi ∧ mi.field "parentId" = .null) ∧
        v = .list (ids.map .str) := by
      refine ⟨((after messages message_id m kids).entries.filter fun e =>
        e.2.field "parentId" = .null).map Prod.fst, fun i => ?_, ?_⟩
      · simp [Dict.mem_entries_iff]
      · simpa [walkStart, Function.comp_def, eq_comm] using hv
    have hpresent : ∀ i ∈ ids, i ∈ after messages message_id m kids := fun i hi =>
      Dict.mem_iff_exists.mpr (((hids i).mp hi).imp fun _ h => h.1)
    rcases hafter.walkToLeaf_leaf hpresent hr with ⟨hnil, hr⟩ | hleaf
    · refine .inl ⟨hr, ?_⟩
      by_contra hne
      obtain ⟨x, hx, hroot⟩ := hafter.acyclic.exists_root
        (s := (after messages message_id m kids).keys)
        (fun x _ p hxp => (hafter.mem_of_parentOf hxp).2)
        (by simpa [Dict.keys, Assoc.keys] using hne)
      obtain ⟨mx, hmx⟩ := Dict.mem_iff_exists.mp hx
      have hxnull : mx.field "parentId" = .null := by
        rcases hafter.parent_present x mx hmx with hxnull | ⟨q, -, hxq⟩
        · exact hxnull
        · rw [parentOf_of_get? hmx, hxq] at hroot
          cases hroot
      have hxids : x ∈ ids := (hids x).mpr ⟨mx, hmx, hxnull⟩
      rw [hnil] at hxids
      cases hxids
    · exact .inr hleaf
  · -- the walk starts from the parent of the deleted message, which survives
    rw [hfield] at hv hr
    have hpar : parentOf messages message_id = some p := parentOf_eq_some.mpr ⟨m, hm, hfield⟩
    have hpr : ¬ Removed (parentOf messages) message_id p := by
      rintro (rfl | hpr)
      · exact h.acyclic.ne_parent hpar rfl
      · exact h.acyclic.ne_grandparent hpar hpr rfl
    have hpa : p ∈ after messages message_id m kids := (mem_after hmem p).mpr ⟨hp, hpr⟩
    obtain ⟨mp, hmp⟩ := Dict.mem_iff_exists.mp hpa
    obtain rfl : v = mp.childrenIds := by
      simpa [walkStart, childrenOf, hmp, bind, Except.bind, pure, Except.pure, eq_comm] using hv
    rcases hafter.childrenIds_cases hmp with ⟨hnil, hfalse⟩ | ⟨cs, hne, hcs, hv⟩
    · refine .inr ⟨p, hpa, ?_, hnil⟩
      cases n with
      | zero => simp [walkToLeaf] at hr
      | succ n => simpa [walkToLeaf, hfalse, eq_comm] using hr
    · rw [hv] at hr
      have hpresent : ∀ i ∈ cs, i ∈ after messages message_id m kids := fun i hi =>
        (hafter.mem_of_parentOf ((hafter.mirror p hpa i).mp (by simp [hcs, hi]))).1
      exact .inr ((hafter.walkToLeaf_leaf hpresent hr).resolve_left fun hnil => hne hnil.1)

/-- Without the message there is nothing to remove, so the history itself is what is asked for. -/
theorem unchanged_of_not_mem {history : History} {message_id : String}
    (h : Consistent history.messages) (hid : message_id ∉ history.messages)
    (hcur : CurrentIsLeaf history) : DeletedCorrectly history.messages message_id history := by
  refine ⟨h, fun x => ?_, fun x m hm => ⟨m, hm, fun k _ _ => rfl⟩, fun x _ l hl => ?_, hcur⟩
  · refine ⟨fun hx => ⟨hx, ?_⟩, fun hx => hx.1⟩
    rintro (rfl | hpar)
    · exact hid hx
    · exact hid (h.mem_of_parentOf hpar).2
  · have hkeep : (l.filter fun y => y ∈ history.messages) = l :=
      List.filter_eq_self.mpr fun y hy => by simpa using h.mem_of_ancestors hl y hy
    rwa [hkeep]

/-- **On a consistent forest that contains the message, the deletion achieves its aim.** -/
theorem delete_of_consistent {history : History} {message_id : String}
    (h : Consistent history.messages) (hid : message_id ∈ history.messages) :
    ∃ fuel after deleted,
      delete_message_from_history fuel history message_id = some (.ok (after, deleted)) ∧
        DeletedCorrectly history.messages message_id after := by
  obtain ⟨m, hm⟩ := Dict.mem_iff_exists.mp hid
  obtain ⟨kids, hkids, hmem⟩ := h.exists_kids
  have hlinks := readLinks_of_consistent h hm hkids hmem
  obtain ⟨fuel, hfuel⟩ := (terminates_iff history message_id).mpr (h.not_walkCycles message_id)
  obtain ⟨k, hk⟩ := (readLinks_parent hlinks).2
  obtain ⟨v, hv, -⟩ := walkStart_relink history.messages message_id hk
  simp only [delete_message_from_history, hm, hlinks, hv, ne_eq, Option.map_eq_none_iff] at hfuel
  obtain ⟨r, hr⟩ := Option.ne_none_iff_exists'.mp hfuel
  have hcorrect : ∀ currentId : Json,
      CurrentIsLeaf ⟨Chats.after history.messages message_id m kids, currentId⟩ →
        DeletedCorrectly history.messages message_id
          ⟨Chats.after history.messages message_id m kids, currentId⟩ := by
    intro currentId hcur
    refine ⟨consistent_after h hm hkids hmem, mem_after hmem, ?_,
      fun x hx l hl => ancestors_after h hm hmem hx hl, hcur⟩
    intro x m' hm'
    simp only [get?_after hmem] at hm'
    split at hm'
    · cases hm'
    · obtain ⟨m₀, hm₀, rfl⟩ := Option.map_eq_some_iff.mp hm'
      exact ⟨m₀, hm₀, fun k hp hc => messageAfter_field _ x m₀ hp hc⟩
  rcases walk_ends h hm hkids hmem hv hr with ⟨rfl, hempty⟩ | ⟨s, hs, rfl, hleaf⟩
  · refine ⟨fuel, ⟨Chats.after history.messages message_id m kids, .null⟩,
      (forestLinks history.messages message_id m kids).deletedIds message_id, ?_,
      hcorrect .null (.inl ⟨rfl, hempty⟩)⟩
    simp [delete_message_from_history, hm, hlinks, hv, hr, inMessages, Json.key, bind, Except.bind,
      pure, Except.pure]
  · refine ⟨fuel, ⟨Chats.after history.messages message_id m kids, .str s⟩,
      (forestLinks history.messages message_id m kids).deletedIds message_id, ?_,
      hcorrect (.str s) (.inr ⟨s, hs, rfl, hleaf⟩)⟩
    simp only [delete_message_from_history, hm, hlinks, hv, hr, inMessages, Json.key_str, bind,
      Except.bind, pure, Except.pure, Option.map_some]
    rw [if_pos (decide_eq_true hs)]

/-- **The deletion does what is asked of it** exactly when the walk meets no cycle of last children
and, where the history is a consistent forest without the message, `currentId` already was a leaf.
-/
theorem delete_message_from_history_correct_iff (history : History) (message_id : String) :
    DeletesAsClaimed history message_id ↔
      ¬ WalkCycles history message_id ∧
        (message_id ∈ history.messages ∨ ¬ Consistent history.messages ∨
          CurrentIsLeaf history) := by
  unfold DeletesAsClaimed
  rw [terminates_iff]
  refine and_congr_right fun _ => ?_
  by_cases hid : message_id ∈ history.messages
  · simp only [hid, true_or, iff_true]
    exact fun h => delete_of_consistent h hid
  · simp only [hid, false_or]
    constructor
    · intro h
      by_cases hcon : Consistent history.messages
      · obtain ⟨fuel, after, deleted, hrun, hcorrect⟩ := h hcon
        rw [delete_of_not_mem hid] at hrun
        cases hrun
        exact .inr hcorrect.current
      · exact .inl hcon
    · intro h hcon
      exact ⟨0, history, [], delete_of_not_mem hid 0,
        unchanged_of_not_mem hcon hid (h.resolve_left (not_not_intro hcon))⟩

/-- A history in which `p` lists itself among its children. -/
def selfChild : History where
  messages := ⟨[("p", [("parentId", .null), ("childrenIds", .list [.str "m", .str "p"])]),
    ("m", [("parentId", .str "p"), ("childrenIds", .list [])])], by decide⟩
  currentId := .str "m"

/-- Deleting `m` there walks from `p` to `p` for ever. -/
theorem selfChild_not_deletesAsClaimed : ¬ DeletesAsClaimed selfChild "m" := by
  rintro ⟨hterm, -⟩
  refine (terminates_iff selfChild "m").mp hterm ⟨[("parentId", .str "p"), ("childrenIds", .list [])],
    ⟨.str "p", [], [], some ("p", [.str "p"])⟩, "p", rfl, rfl, by decide,
    0, 1, by decide, by decide, by decide⟩

end OpenLaunch.Chats
