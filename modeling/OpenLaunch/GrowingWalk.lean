import OpenLaunch.SyntaxTree
import Mathlib.Data.List.Infix
import Mathlib.Logic.Function.Iterate

/-! # Walking a tree that grows

A breadth-first walk that visits one node after the other and takes the arguments of a node only
after the visit. A visit that gives the node further arguments makes the walk longer. A node is known
by its *position*: the places of the arguments on the way down from the root. The positions in the
queue are *apart*, none below another one, so that a visit at one of them leaves the others alone. -/

namespace OpenLaunch.SyntaxTree

variable {κ : Type}

/-! ## Positions -/

/-- The part of a tree at a position. -/
def subtreeAt : SyntaxTree κ → List ℕ → Option (SyntaxTree κ)
  | t, [] => some t
  | t, i :: q => t.args[i]?.bind fun s => s.subtreeAt q

/-- The tree with the part at a position changed. -/
def modifyAt (f : SyntaxTree κ → SyntaxTree κ) : List ℕ → SyntaxTree κ → SyntaxTree κ
  | [], t => f t
  | i :: q, t => .node t.kind (t.args.modify i (modifyAt f q))

/-- Neither position is below the other one. -/
def Apart (p q : List ℕ) : Prop := ¬ p <+: q ∧ ¬ q <+: p

variable {f g : SyntaxTree κ → SyntaxTree κ} {p q : List ℕ} {t s : SyntaxTree κ}

theorem Apart.symm (h : Apart p q) : Apart q p := ⟨h.2, h.1⟩

theorem Apart.of_cons {i : ℕ} (h : Apart (i :: p) (i :: q)) : Apart p q :=
  ⟨fun hpq => h.1 (List.cons_prefix_cons.mpr ⟨rfl, hpq⟩),
    fun hqp => h.2 (List.cons_prefix_cons.mpr ⟨rfl, hqp⟩)⟩

theorem subtreeAt_append (t : SyntaxTree κ) (p q : List ℕ) :
    t.subtreeAt (p ++ q) = (t.subtreeAt p).bind fun s => s.subtreeAt q := by
  induction p generalizing t with
  | nil => rfl
  | cons i p ih =>
    simp only [List.cons_append, subtreeAt, Option.bind_assoc, ih]

theorem subtreeAt_modifyAt_self (t : SyntaxTree κ) (p : List ℕ) :
    (modifyAt f p t).subtreeAt p = (t.subtreeAt p).map f := by
  induction p generalizing t with
  | nil => rfl
  | cons i p ih =>
    show ((t.args.modify i (modifyAt f p))[i]?.bind fun s => s.subtreeAt p) =
      (t.args[i]?.bind fun s => s.subtreeAt p).map f
    rw [List.getElem?_modify_eq]
    cases t.args[i]? with
    | none => rfl
    | some c => exact ih c

/-- A change leaves what is apart alone. -/
theorem subtreeAt_modifyAt_of_apart (h : Apart p q) (t : SyntaxTree κ) :
    (modifyAt f p t).subtreeAt q = t.subtreeAt q := by
  induction p generalizing q t with
  | nil => exact absurd List.nil_prefix h.1
  | cons i p ih =>
    cases q with
    | nil => exact absurd List.nil_prefix h.2
    | cons j q =>
      show ((t.args.modify i (modifyAt f p))[j]?.bind fun s => s.subtreeAt q) =
        t.args[j]?.bind fun s => s.subtreeAt q
      by_cases hij : i = j
      · subst hij
        rw [List.getElem?_modify_eq]
        cases t.args[i]? with
        | none => rfl
        | some c => exact ih h.of_cons c
      · rw [List.getElem?_modify_ne _ _ hij]

theorem modifyAt_modifyAt (t : SyntaxTree κ) (p : List ℕ) :
    modifyAt f p (modifyAt g p t) = modifyAt (f ∘ g) p t := by
  induction p generalizing t with
  | nil => rfl
  | cons i p ih =>
    simp only [modifyAt, kind, args, List.modify_modify_eq]
    congr 2
    funext s
    exact ih s

theorem modifyAt_append (t : SyntaxTree κ) (p q : List ℕ) :
    modifyAt f (p ++ q) t = modifyAt (modifyAt f q) p t := by
  induction p generalizing t with
  | nil => rfl
  | cons i p ih =>
    rw [List.cons_append, modifyAt, modifyAt]
    congr 2
    funext s
    exact ih s

/-- Changes that are apart can be made in either order. -/
theorem modifyAt_comm (h : Apart p q) (t : SyntaxTree κ) :
    modifyAt f p (modifyAt g q t) = modifyAt g q (modifyAt f p t) := by
  induction p generalizing q t with
  | nil => exact absurd List.nil_prefix h.1
  | cons i p ih =>
    cases q with
    | nil => exact absurd List.nil_prefix h.2
    | cons j q =>
      simp only [modifyAt, kind, args]
      congr 1
      by_cases hij : i = j
      · subst hij
        simp only [List.modify_modify_eq]
        congr 1
        funext s
        exact ih h.of_cons s
      · apply List.ext_getElem?
        intro k
        by_cases hik : i = k
        · subst hik
          simp only [List.getElem?_modify_eq, List.getElem?_modify_ne _ _ (Ne.symm hij)]
        · simp only [List.getElem?_modify_ne _ _ hik, List.getElem?_modify, if_false, id_map]

/-- Two changes that do the same to the part at the position. -/
theorem modifyAt_congr (hs : t.subtreeAt p = some s) (h : f s = g s) :
    modifyAt f p t = modifyAt g p t := by
  induction p generalizing t with
  | nil =>
    cases hs
    exact h
  | cons i p ih =>
    obtain ⟨c, hc, hcs⟩ := Option.bind_eq_some_iff.mp hs
    rw [modifyAt, modifyAt]
    congr 1
    apply List.ext_getElem?
    intro k
    by_cases hik : i = k
    · subst hik
      rw [List.getElem?_modify_eq, List.getElem?_modify_eq, hc]
      exact congrArg some (ih hcs)
    · rw [List.getElem?_modify_ne _ _ hik, List.getElem?_modify_ne _ _ hik]

/-! ## All arguments of a node -/

/-- Changes of places that differ, one by one. -/
theorem getElem?_foldr_modify {α : Type} (f : α → α) {is : List ℕ} (his : is.Nodup) (xs : List α)
    (k : ℕ) : (is.foldr (fun i ys => ys.modify i f) xs)[k]? =
      if k ∈ is then xs[k]?.map f else xs[k]? := by
  induction is with
  | nil => simp
  | cons i is ih =>
    rw [List.nodup_cons] at his
    rw [List.foldr_cons]
    by_cases hik : i = k
    · subst hik
      simp only [List.getElem?_modify_eq, Option.map_eq_map, ih his.2, his.1, if_false,
        List.mem_cons_self, if_true]
    · rw [List.getElem?_modify_ne _ _ hik, ih his.2]
      simp only [List.mem_cons, Ne.symm hik, false_or]

theorem foldr_range_modify {α : Type} (f : α → α) (xs : List α) :
    (List.range xs.length).foldr (fun i ys => ys.modify i f) xs = xs.map f := by
  apply List.ext_getElem?
  intro k
  rw [getElem?_foldr_modify f List.nodup_range, List.getElem?_map]
  split
  · rfl
  · next hk =>
    rw [List.mem_range, Nat.not_lt] at hk
    rw [List.getElem?_eq_none hk]
    rfl

/-- The positions of the arguments of a node. -/
def childrenAt (q : List ℕ) (n : SyntaxTree κ) : List (List ℕ) :=
  (List.range n.args.length).map fun i => q ++ [i]

/-- Changes of all arguments of the part at a position. -/
theorem foldr_childrenAt {n : SyntaxTree κ} (hn : t.subtreeAt q = some n) :
    (childrenAt q n).foldr (modifyAt f) t =
      modifyAt (fun s => .node s.kind (s.args.map f)) q t := by
  have hfold : ∀ is : List ℕ, (is.map fun i => q ++ [i]).foldr (modifyAt f) t =
      modifyAt (fun s => .node s.kind (is.foldr (fun i ys => ys.modify i f) s.args)) q t := by
    intro is
    induction is with
    | nil =>
      have hself : ∀ p (u : SyntaxTree κ),
          modifyAt (fun s => .node s.kind s.args) p u = u := by
        intro p
        induction p with
        | nil =>
          intro u
          cases u with
          | node k ts => rfl
        | cons i p ih =>
          intro u
          rw [modifyAt, funext ih]
          cases u with
          | node k ts =>
            show node k (ts.modify i id) = node k ts
            rw [List.modify_id]
      exact (hself q t).symm
    | cons i is ih =>
      rw [List.map_cons, List.foldr_cons, ih, modifyAt_append, modifyAt_modifyAt]
      rfl
  rw [childrenAt, hfold]
  refine modifyAt_congr hn ?_
  show node n.kind _ = node n.kind _
  rw [foldr_range_modify]

/-! ## The walk -/

/-- A walk under way: the tree as it is, and the positions to visit. -/
structure Walk (κ : Type) where
  tree : SyntaxTree κ
  queue : List (List ℕ)

namespace Walk

/-- The walk after a visit at the first position of the queue, which has made the node into `n`. -/
def advance (tree : SyntaxTree κ) (q : List ℕ) (rest : List (List ℕ)) (n : SyntaxTree κ) :
    Walk κ where
  tree := modifyAt (fun _ => n) q tree
  queue := rest ++ childrenAt q n

/-- One visit. -/
def step (visit : SyntaxTree κ → SyntaxTree κ) (w : Walk κ) : Walk κ :=
  match w.queue with
  | [] => w
  | q :: rest =>
    match w.tree.subtreeAt q with
    | some n => advance w.tree q rest (visit n)
    | none => ⟨w.tree, rest⟩

/-- The walk from the root. -/
def start (t : SyntaxTree κ) : Walk κ := ⟨t, [[]]⟩

/-- The parts that are still to be walked through. -/
def pending (w : Walk κ) : List (SyntaxTree κ) := w.queue.filterMap w.tree.subtreeAt

/-- The positions of the queue are apart, and in the tree. -/
structure Sound (w : Walk κ) : Prop where
  apart : w.queue.Pairwise Apart
  inside : ∀ q ∈ w.queue, ∃ n, w.tree.subtreeAt q = some n

theorem sound_start (t : SyntaxTree κ) : (start t).Sound where
  apart := List.pairwise_singleton _ _
  inside q hq := by
    rw [List.mem_singleton.mp hq]
    exact ⟨t, rfl⟩

variable {w : Walk κ} {tree : SyntaxTree κ} {rest : List (List ℕ)} {n n' : SyntaxTree κ}

/-- The positions of arguments are apart from those that are apart from the node. -/
theorem apart_childrenAt {q' : List ℕ} (h : Apart q q') : ∀ c ∈ childrenAt q n', Apart q' c := by
  intro c hc
  obtain ⟨i, -, rfl⟩ := List.mem_map.mp hc
  constructor
  · intro hprefix
    rcases List.prefix_concat_iff.mp hprefix with rfl | hprefix
    · exact h.1 (List.prefix_append q [i])
    · exact h.2 hprefix
  · intro hprefix
    exact h.1 ((List.prefix_append q [i]).trans hprefix)

theorem pairwise_childrenAt (q : List ℕ) (n' : SyntaxTree κ) :
    (childrenAt q n').Pairwise Apart := by
  rw [childrenAt, List.pairwise_map]
  refine List.nodup_range.imp fun {i j} hij => ?_
  have hapart : ∀ {i j : ℕ}, i ≠ j → ¬ q ++ [i] <+: q ++ [j] := by
    intro i j hij hprefix
    rw [List.prefix_append_right_inj, List.cons_prefix_cons] at hprefix
    exact hij hprefix.1
  exact ⟨hapart hij, hapart (Ne.symm hij)⟩

theorem subtreeAt_advance_child (hn : tree.subtreeAt q = some n) (i : ℕ) :
    (advance tree q rest n').tree.subtreeAt (q ++ [i]) = n'.args[i]? := by
  rw [advance, subtreeAt_append, subtreeAt_modifyAt_self, hn]
  show (n'.args[i]?.bind fun s => some s) = n'.args[i]?
  cases n'.args[i]? with
  | none => rfl
  | some c => rfl

/-- A visit leaves the other positions apart and in the tree. -/
theorem Sound.advance (h : Sound ⟨tree, q :: rest⟩) (hn : tree.subtreeAt q = some n) :
    (advance tree q rest n').Sound := by
  obtain ⟨hapart, hinside⟩ := h
  rw [List.pairwise_cons] at hapart
  constructor
  · refine List.pairwise_append.mpr ⟨hapart.2, pairwise_childrenAt q n', fun q' hq' c hc => ?_⟩
    exact apart_childrenAt (hapart.1 q' hq') c hc
  · intro q' hq'
    rcases List.mem_append.mp hq' with hrest | hchild
    · obtain ⟨m, hm⟩ := hinside q' (List.mem_cons_of_mem q hrest)
      refine ⟨m, ?_⟩
      rw [Walk.advance, subtreeAt_modifyAt_of_apart (hapart.1 q' hrest)]
      exact hm
    · obtain ⟨i, hi, rfl⟩ := List.mem_map.mp hchild
      rw [subtreeAt_advance_child hn]
      exact ⟨_, List.getElem?_eq_getElem (List.mem_range.mp hi)⟩

theorem filterMap_range_getElem? {α : Type} (xs : List α) :
    (List.range xs.length).filterMap (fun i => xs[i]?) = xs := by
  induction xs with
  | nil => rfl
  | cons x xs ih =>
    rw [List.length_cons, List.range_succ_eq_map, List.filterMap_cons, List.filterMap_map]
    exact congrArg (x :: ·) ih

/-- After a visit the arguments of the node are still to be walked through, and what was before. -/
theorem pending_advance (h : Sound ⟨tree, q :: rest⟩) (hn : tree.subtreeAt q = some n) :
    (advance tree q rest n').pending = rest.filterMap tree.subtreeAt ++ n'.args := by
  have hapart := (List.pairwise_cons.mp h.apart).1
  have hrest : rest.filterMap (advance tree q rest n').tree.subtreeAt =
      rest.filterMap tree.subtreeAt :=
    List.filterMap_congr fun q' hq' => subtreeAt_modifyAt_of_apart (hapart q' hq') tree
  have hchildren : (childrenAt q n').filterMap (advance tree q rest n').tree.subtreeAt =
      n'.args := by
    rw [childrenAt, List.filterMap_map]
    have hget : ((advance tree q rest n').tree.subtreeAt ∘ fun i => q ++ [i]) =
        fun i => n'.args[i]? := by
      funext i
      exact subtreeAt_advance_child hn i
    rw [hget]
    exact filterMap_range_getElem? n'.args
  show (rest ++ childrenAt q n').filterMap (advance tree q rest n').tree.subtreeAt = _
  rw [List.filterMap_append, hrest, hchildren]

end Walk

/-! ## Visits that add arguments -/

section Growth

variable (p : κ → Bool) (extra : List (SyntaxTree κ))

/-- The visit that gives a node of some kinds further arguments. -/
def grow (n : SyntaxTree κ) : SyntaxTree κ :=
  .node n.kind (n.args ++ if p n.kind then extra else [])

/-- The part has no node that grows, or nothing that is added has one. -/
def Calm (s : SyntaxTree κ) : Prop :=
  (∀ m ∈ s.nodes, p m.kind = false) ∨ ∀ m ∈ nodesOf extra, p m.kind = false

end Growth

variable {p : κ → Bool} {extra : List (SyntaxTree κ)} {n : SyntaxTree κ}

theorem mem_nodes_of_mem_args {c m : SyntaxTree κ} (hc : c ∈ n.args) (hm : m ∈ c.nodes) :
    m ∈ n.nodes := by
  cases n with
  | node k ts => exact mem_nodes.mpr (.inr ⟨c, hc, hm⟩)

theorem mem_nodes_trans {l m : SyntaxTree κ} (hl : l ∈ m.nodes) (hm : m ∈ n.nodes) :
    l ∈ n.nodes := by
  induction n with
  | node k ts ih =>
    rcases mem_nodes.mp hm with rfl | ⟨t, ht, hmt⟩
    · exact hl
    · exact mem_nodes.mpr (.inr ⟨t, ht, ih t ht hmt⟩)

/-- A rewritten node is where the node was. -/
theorem subtreeAt_addArgs (h : t.subtreeAt q = some n) :
    (addArgs p extra t).subtreeAt q = some (addArgs p extra n) := by
  induction q generalizing t with
  | nil =>
    cases h
    rfl
  | cons i q ih =>
    obtain ⟨c, hc, hn⟩ := Option.bind_eq_some_iff.mp h
    have hi : i < (t.args.map (addArgs p extra)).length := by
      rw [List.length_map]
      exact (List.getElem?_eq_some_iff.mp hc).1
    rw [subtreeAt, args_addArgs, List.getElem?_append_left hi, List.getElem?_map, hc]
    exact ih hn

/-- A tree without a node that grows stays as it is. -/
theorem addArgs_of_none (h : ∀ m ∈ t.nodes, p m.kind = false) : addArgs p extra t = t := by
  induction t with
  | node k ts ih =>
    have hk : p k = false := h _ (self_mem_nodes _)
    have hts : ts.map (addArgs p extra) = ts.map id :=
      List.map_congr_left fun c hc => ih c hc fun m hm => h m (mem_nodes.mpr (.inr ⟨c, hc, hm⟩))
    rw [addArgs, addArgsOf_eq_map, hts, List.map_id, hk, if_neg Bool.false_ne_true,
      List.append_nil]

/-- Giving a part all its arguments is a visit, and then the same for the arguments. -/
theorem addArgs_grow (h : Calm p extra n) :
    addArgs p extra n = .node (grow p extra n).kind ((grow p extra n).args.map (addArgs p extra)) := by
  have hextra : (if p n.kind then extra else []).map (addArgs p extra) =
      if p n.kind then extra else [] := by
    split
    · next hp =>
      have hnone : ∀ m ∈ nodesOf extra, p m.kind = false := by
        refine h.resolve_left fun hnone => ?_
        rw [hnone n (self_mem_nodes n)] at hp
        exact absurd hp Bool.false_ne_true
      refine (List.map_congr_left fun e he => addArgs_of_none fun m hm => ?_).trans (List.map_id _)
      exact hnone m (mem_nodesOf.mpr ⟨e, he, hm⟩)
    · rfl
  have hargs : (grow p extra n).args.map (addArgs p extra) =
      n.args.map (addArgs p extra) ++ if p n.kind then extra else [] := by
    rw [grow, args, List.map_append, hextra]
  rw [hargs]
  cases n with
  | node k ts =>
    rw [addArgs, addArgsOf_eq_map]
    rfl

theorem calm_of_mem_grow (h : Calm p extra n) : ∀ c ∈ (grow p extra n).args, Calm p extra c := by
  intro c hc
  refine h.imp (fun hnone m hm => ?_) id
  have hargs : (grow p extra n).args = n.args := by
    rw [grow, args, hnone n (self_mem_nodes n), if_neg Bool.false_ne_true, List.append_nil]
  rw [hargs] at hc
  exact hnone m (mem_nodes_of_mem_args hc hm)

namespace Walk

/-- The tree of a walk with the parts that are still to be walked through rewritten. -/
def finish (p : κ → Bool) (extra : List (SyntaxTree κ)) (w : Walk κ) : SyntaxTree κ :=
  w.queue.foldr (modifyAt (addArgs p extra)) w.tree

variable {w : Walk κ} {tree : SyntaxTree κ} {rest : List (List ℕ)}

/-- A change that is apart from others can be made before them. -/
theorem foldr_modifyAt_comm (h : ∀ q' ∈ rest, Apart q q') (t : SyntaxTree κ) :
    rest.foldr (modifyAt f) (modifyAt g q t) = modifyAt g q (rest.foldr (modifyAt f) t) := by
  induction rest with
  | nil => rfl
  | cons q' rest ih =>
    rw [List.forall_mem_cons] at h
    rw [List.foldr_cons, List.foldr_cons, ih h.2, modifyAt_comm h.1.symm]

/-- What a visit does not change: the tree that the walk ends with. -/
theorem finish_advance (hsound : Sound ⟨tree, q :: rest⟩) (hn : tree.subtreeAt q = some n)
    (hcalm : Calm p extra n) :
    (advance tree q rest (grow p extra n)).finish p extra =
      finish p extra ⟨tree, q :: rest⟩ := by
  have hapart := (List.pairwise_cons.mp hsound.apart).1
  have hvisited : (modifyAt (fun _ => grow p extra n) q tree).subtreeAt q =
      some (grow p extra n) := by
    rw [subtreeAt_modifyAt_self, hn]
    rfl
  have hchildren : (childrenAt q (grow p extra n)).foldr (modifyAt (addArgs p extra))
      (modifyAt (fun _ => grow p extra n) q tree) = modifyAt (addArgs p extra) q tree := by
    rw [foldr_childrenAt hvisited, modifyAt_modifyAt]
    exact modifyAt_congr hn (addArgs_grow hcalm).symm
  rw [finish, advance, List.foldr_append, hchildren, foldr_modifyAt_comm hapart]
  rfl

/-- One visit of a walk that is not at its end. -/
theorem exists_step_eq {visit : SyntaxTree κ → SyntaxTree κ} (hsound : w.Sound)
    (hqueue : w.queue ≠ []) :
    ∃ tree q rest n, w = ⟨tree, q :: rest⟩ ∧ tree.subtreeAt q = some n ∧
      w.step visit = advance tree q rest (visit n) := by
  obtain ⟨tree, queue⟩ := w
  cases queue with
  | nil => exact absurd rfl hqueue
  | cons q rest =>
    obtain ⟨n, hn⟩ := hsound.inside q List.mem_cons_self
    refine ⟨tree, q, rest, n, rfl, hn, ?_⟩
    have hn' : tree.subtreeAt q = some n := hn
    simp only [step, hn']

theorem pending_cons (hn : tree.subtreeAt q = some n) :
    pending ⟨tree, q :: rest⟩ = n :: rest.filterMap tree.subtreeAt :=
  List.filterMap_cons_some hn

theorem Sound.step {visit : SyntaxTree κ → SyntaxTree κ} (hsound : w.Sound) :
    (w.step visit).Sound := by
  by_cases hqueue : w.queue = []
  · have hstay : w.step visit = w := by simp only [Walk.step, hqueue]
    rw [hstay]
    exact hsound
  · obtain ⟨tree, q, rest, n, rfl, hn, hstep⟩ := @exists_step_eq κ w visit hsound hqueue
    rw [hstep]
    exact hsound.advance hn

/-- A visit leaves a walk calm, and does not change the tree that it ends with. -/
theorem finish_step (hsound : w.Sound) (hcalm : ∀ s ∈ w.pending, Calm p extra s) :
    (∀ s ∈ (w.step (grow p extra)).pending, Calm p extra s) ∧
      (w.step (grow p extra)).finish p extra = w.finish p extra := by
  by_cases hqueue : w.queue = []
  · have hstay : w.step (grow p extra) = w := by simp only [Walk.step, hqueue]
    rw [hstay]
    exact ⟨hcalm, rfl⟩
  · obtain ⟨tree, q, rest, n, rfl, hn, hstep⟩ :=
      @exists_step_eq κ w (grow p extra) hsound hqueue
    rw [pending_cons hn, List.forall_mem_cons] at hcalm
    rw [hstep, pending_advance hsound hn]
    refine ⟨fun s hs => ?_, finish_advance hsound hn hcalm.1⟩
    rcases List.mem_append.mp hs with hs | hs
    · exact hcalm.2 s hs
    · exact calm_of_mem_grow hcalm.1 s hs

/-- **The tree that a calm walk ends with.** -/
theorem tree_of_end (hsound : w.Sound) (hcalm : ∀ s ∈ w.pending, Calm p extra s) {k : ℕ}
    (h : ((step (grow p extra))^[k] w).queue = []) :
    ((step (grow p extra))^[k] w).tree = w.finish p extra := by
  induction k generalizing w with
  | zero =>
    have hqueue : w.queue = [] := h
    rw [finish, hqueue]
    rfl
  | succ k ih =>
    rw [Function.iterate_succ_apply] at h ⊢
    obtain ⟨hcalm', hfinish⟩ := finish_step hsound hcalm
    rw [ih hsound.step hcalm' h, hfinish]

/-- **A calm walk ends.** The induction is on the number of nodes that the rewritten parts in the
queue have. -/
theorem exists_end (hsound : w.Sound) (hcalm : ∀ s ∈ w.pending, Calm p extra s) :
    ∃ k, ((step (grow p extra))^[k] w).queue = [] := by
  obtain ⟨size, hsize⟩ : ∃ size, (nodesOf (w.pending.map (addArgs p extra))).length = size :=
    ⟨_, rfl⟩
  induction size generalizing w with
  | zero =>
    refine ⟨0, by_contra fun hqueue => ?_⟩
    obtain ⟨tree, q, rest, n, rfl, hn, -⟩ := @exists_step_eq κ w (grow p extra) hsound hqueue
    have hpos := List.length_pos_of_mem (self_mem_nodes (addArgs p extra n))
    rw [pending_cons hn, List.map_cons, nodesOf, List.length_append] at hsize
    omega
  | succ size ih =>
    have hqueue : w.queue ≠ [] := by
      intro hnil
      rw [pending, hnil] at hsize
      exact absurd hsize (by simp [nodesOf])
    obtain ⟨tree, q, rest, n, rfl, hn, hstep⟩ :=
      @exists_step_eq κ w (grow p extra) hsound hqueue
    have hcalm' := (finish_step hsound hcalm).1
    rw [pending_cons hn] at hcalm hsize
    have hsize' : (nodesOf ((step (grow p extra) ⟨tree, q :: rest⟩).pending.map
        (addArgs p extra))).length = size := by
      rw [List.map_cons, nodesOf, List.length_append, addArgs_grow (List.forall_mem_cons.mp hcalm).1,
        nodes, List.length_cons] at hsize
      rw [hstep, pending_advance hsound hn, List.map_append, nodesOf_append, List.length_append]
      omega
    obtain ⟨k, hk⟩ := ih hsound.step hcalm' hsize'
    exact ⟨k + 1, hk⟩

/-- A part that is still to be walked through has a node that grows. -/
def Busy (p : κ → Bool) (w : Walk κ) : Prop := ∃ s ∈ w.pending, ∃ m ∈ s.nodes, p m.kind = true

/-- Where growing adds a node that grows, a walk that has one before it always has. -/
theorem Busy.step (hsound : w.Sound) (hextra : ∃ m ∈ nodesOf extra, p m.kind = true)
    (h : w.Busy p) : (w.step (grow p extra)).Busy p := by
  have hqueue : w.queue ≠ [] := by
    intro hnil
    obtain ⟨s, hs, -⟩ := h
    rw [pending, hnil] at hs
    exact absurd hs List.not_mem_nil
  obtain ⟨tree, q, rest, n, rfl, hn, hstep⟩ :=
    @exists_step_eq κ w (grow p extra) hsound hqueue
  rw [hstep, Busy, pending_advance hsound hn]
  obtain ⟨s, hs, m, hm, hp⟩ := h
  rw [pending_cons hn] at hs
  rcases List.mem_cons.mp hs with rfl | hrest
  · by_cases hk : p s.kind = true
    · -- The node grows now, and what it is given has a node that will.
      obtain ⟨m', hm', hp'⟩ := hextra
      obtain ⟨e, he, hme⟩ := mem_nodesOf.mp hm'
      refine ⟨e, List.mem_append_right _ ?_, m', hme, hp'⟩
      show e ∈ s.args ++ if p s.kind then extra else []
      rw [if_pos hk]
      exact List.mem_append_right _ he
    · cases s with
      | node k ts =>
        rcases mem_nodes.mp hm with rfl | ⟨c, hc, hmc⟩
        · exact absurd hp hk
        · exact ⟨c, List.mem_append_right _ (List.mem_append_left _ hc), m, hmc, hp⟩
  · exact ⟨s, List.mem_append_left _ hrest, m, hm, hp⟩

/-- **A walk that is not calm never ends.** -/
theorem queue_ne_nil_of_busy (hsound : w.Sound) (hextra : ∃ m ∈ nodesOf extra, p m.kind = true)
    (h : w.Busy p) (k : ℕ) : ((step (grow p extra))^[k] w).queue ≠ [] := by
  induction k generalizing w with
  | zero =>
    intro hnil
    obtain ⟨s, hs, -⟩ := h
    rw [pending] at hs
    rw [Function.iterate_zero, id] at hnil
    rw [hnil] at hs
    exact absurd hs List.not_mem_nil
  | succ k ih =>
    rw [Function.iterate_succ_apply]
    exact ih hsound.step (h.step hsound hextra)

/-- **When a walk ends**: exactly if the tree has no node that grows, or what is added has none. It
ends with every node of the tree grown once, and with what was added as it is. -/
theorem ends_with_iff (t final : SyntaxTree κ) :
    (∃ k, (step (grow p extra))^[k] (start t) = ⟨final, []⟩) ↔
      Calm p extra t ∧ final = addArgs p extra t := by
  constructor
  · rintro ⟨k, hk⟩
    have hqueue : ((step (grow p extra))^[k] (start t)).queue = [] := by rw [hk]
    have hcalm : Calm p extra t := by
      by_contra hcalm
      rw [Calm, not_or] at hcalm
      obtain ⟨hgrows, hextra⟩ := hcalm
      simp only [not_forall, Bool.not_eq_false] at hgrows hextra
      obtain ⟨m, hm, hp⟩ := hgrows
      obtain ⟨m', hm', hp'⟩ := hextra
      refine queue_ne_nil_of_busy (sound_start t) ⟨m', hm', hp'⟩ ?_ k hqueue
      exact ⟨t, List.mem_singleton_self t, m, hm, hp⟩
    refine ⟨hcalm, ?_⟩
    have htree := tree_of_end (sound_start t) (List.forall_mem_singleton.mpr hcalm) hqueue
    rw [hk] at htree
    exact htree
  · rintro ⟨hcalm, rfl⟩
    have hpending := List.forall_mem_singleton.mpr hcalm
    obtain ⟨k, hk⟩ := exists_end (sound_start t) hpending
    have htree := tree_of_end (sound_start t) hpending hk
    refine ⟨k, ?_⟩
    generalize (step (grow p extra))^[k] (start t) = w at hk htree
    obtain ⟨tree, queue⟩ := w
    cases hk
    cases htree
    rfl

end Walk

end OpenLaunch.SyntaxTree
