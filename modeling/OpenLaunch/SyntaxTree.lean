import Mathlib.Data.List.Perm.Basic

/-! # Syntax trees

Trees whose nodes carry a kind and a list of arguments: the nodes of a tree, the walk that visits
them breadth first, and the rewriting that gives every node of some kinds further arguments. -/

namespace OpenLaunch

/-- A node: its kind and its arguments. -/
inductive SyntaxTree (κ : Type)
  | node (kind : κ) (args : List (SyntaxTree κ))

namespace SyntaxTree

variable {κ : Type}

/-- The kind of the root. -/
def kind : SyntaxTree κ → κ
  | .node k _ => k

/-- The arguments of the root. -/
def args : SyntaxTree κ → List (SyntaxTree κ)
  | .node _ ts => ts

/-- Induction over a tree, with a hypothesis for each argument. -/
@[elab_as_elim, induction_eliminator]
theorem ind {motive : SyntaxTree κ → Prop}
    (node : ∀ k ts, (∀ t ∈ ts, motive t) → motive (.node k ts)) (t : SyntaxTree κ) : motive t :=
  SyntaxTree.rec (motive_1 := motive) (motive_2 := fun ts => ∀ t ∈ ts, motive t) node (by simp)
    (fun _ _ ht hts => List.forall_mem_cons.mpr ⟨ht, hts⟩) t

/-! ## The nodes of a tree -/

mutual

/-- The node itself and those below it. -/
def nodes : SyntaxTree κ → List (SyntaxTree κ)
  | .node k ts => .node k ts :: nodesOf ts

/-- The nodes of several trees. -/
def nodesOf : List (SyntaxTree κ) → List (SyntaxTree κ)
  | [] => []
  | t :: ts => nodes t ++ nodesOf ts

end

theorem nodesOf_eq_flatMap (ts : List (SyntaxTree κ)) : nodesOf ts = ts.flatMap nodes := by
  induction ts with
  | nil => rfl
  | cons t ts ih => rw [nodesOf, ih, List.flatMap_cons]

theorem nodesOf_append (ts us : List (SyntaxTree κ)) :
    nodesOf (ts ++ us) = nodesOf ts ++ nodesOf us := by
  simp only [nodesOf_eq_flatMap, List.flatMap_append]

theorem mem_nodesOf {ts : List (SyntaxTree κ)} {m : SyntaxTree κ} :
    m ∈ nodesOf ts ↔ ∃ t ∈ ts, m ∈ t.nodes := by
  rw [nodesOf_eq_flatMap, List.mem_flatMap]

theorem mem_nodes {k : κ} {ts : List (SyntaxTree κ)} {m : SyntaxTree κ} :
    m ∈ (node k ts).nodes ↔ m = .node k ts ∨ ∃ t ∈ ts, m ∈ t.nodes := by
  rw [nodes, List.mem_cons, mem_nodesOf]

theorem self_mem_nodes (t : SyntaxTree κ) : t ∈ t.nodes := by
  cases t with
  | node k ts => exact mem_nodes.mpr (.inl rfl)

/-! ## Walking breadth first -/

/-- The nodes of the queued trees, level by level. The first argument bounds their number. -/
def bfs : ℕ → List (SyntaxTree κ) → List (SyntaxTree κ)
  | 0, _ => []
  | _ + 1, [] => []
  | n + 1, t :: queue => t :: bfs n (queue ++ t.args)

/-- The walk over a tree. -/
def walk (t : SyntaxTree κ) : List (SyntaxTree κ) := bfs t.nodes.length [t]

/-- The walk visits what there is to visit, in another order. -/
theorem bfs_perm {n : ℕ} {queue : List (SyntaxTree κ)} (h : (nodesOf queue).length ≤ n) :
    (bfs n queue).Perm (nodesOf queue) := by
  induction n generalizing queue with
  | zero =>
    rw [List.length_eq_zero_iff.mp (Nat.le_zero.mp h)]
    exact .refl _
  | succ n ih =>
    cases queue with
    | nil => exact .refl _
    | cons t queue =>
      obtain ⟨k, ts⟩ := t
      simp only [nodesOf, nodes, List.length_append, List.length_cons] at h
      have hrest : (bfs n (queue ++ ts)).Perm (nodesOf queue ++ nodesOf ts) := by
        rw [← nodesOf_append]
        apply ih
        rw [nodesOf_append, List.length_append]
        omega
      rw [bfs, nodesOf, nodes, List.cons_append]
      exact (hrest.trans List.perm_append_comm).cons _

@[simp] theorem mem_walk {t m : SyntaxTree κ} : m ∈ t.walk ↔ m ∈ t.nodes := by
  have hperm : t.walk.Perm (nodesOf [t]) := bfs_perm (by simp [nodesOf])
  rw [hperm.mem_iff, mem_nodesOf]
  simp

/-! ## Further arguments -/

mutual

/-- The tree with further arguments at every node whose kind satisfies `p`. -/
def addArgs (p : κ → Bool) (extra : List (SyntaxTree κ)) : SyntaxTree κ → SyntaxTree κ
  | .node k ts => .node k (addArgsOf p extra ts ++ if p k then extra else [])

/-- The same for several trees. -/
def addArgsOf (p : κ → Bool) (extra : List (SyntaxTree κ)) :
    List (SyntaxTree κ) → List (SyntaxTree κ)
  | [] => []
  | t :: ts => addArgs p extra t :: addArgsOf p extra ts

end

variable {p : κ → Bool} {extra : List (SyntaxTree κ)}

theorem addArgsOf_eq_map (ts : List (SyntaxTree κ)) :
    addArgsOf p extra ts = ts.map (addArgs p extra) := by
  induction ts with
  | nil => rfl
  | cons t ts ih => rw [addArgsOf, ih, List.map_cons]

@[simp] theorem kind_addArgs (t : SyntaxTree κ) : (addArgs p extra t).kind = t.kind := by
  cases t with
  | node k ts => rfl

theorem args_addArgs (t : SyntaxTree κ) :
    (addArgs p extra t).args = t.args.map (addArgs p extra) ++ if p t.kind then extra else [] := by
  cases t with
  | node k ts => rw [addArgs, args, addArgsOf_eq_map, args, kind]

/-- Nothing further is nothing changed. -/
theorem addArgs_nil (t : SyntaxTree κ) : addArgs p [] t = t := by
  induction t with
  | node k ts ih =>
    have hts : ts.map (addArgs p []) = ts.map id := List.map_congr_left ih
    rw [addArgs, addArgsOf_eq_map, hts, List.map_id, ite_self, List.append_nil]

/-- **The nodes of the rewritten tree**: those of the tree, rewritten, and those added. -/
theorem mem_nodes_addArgs {t m : SyntaxTree κ} :
    m ∈ (addArgs p extra t).nodes ↔
      (∃ s ∈ t.nodes, m = addArgs p extra s) ∨
        (∃ s ∈ t.nodes, p s.kind = true) ∧ m ∈ nodesOf extra := by
  induction t with
  | node k ts ih =>
    have hadded : m ∈ nodesOf (if p k then extra else []) ↔ p k = true ∧ m ∈ nodesOf extra := by
      by_cases hk : p k = true
      · simp [hk]
      · simp [hk, nodesOf]
    rw [addArgs, nodes, List.mem_cons, nodesOf_append, List.mem_append, hadded, addArgsOf_eq_map,
      mem_nodesOf]
    constructor
    · rintro (rfl | ⟨t', ht', hm⟩ | ⟨hk, hm⟩)
      · refine .inl ⟨.node k ts, self_mem_nodes _, ?_⟩
        rw [addArgs, addArgsOf_eq_map]
      · obtain ⟨t, ht, rfl⟩ := List.mem_map.mp ht'
        rcases (ih t ht).mp hm with ⟨s, hs, rfl⟩ | ⟨⟨s, hs, hp⟩, hm⟩
        · exact .inl ⟨s, mem_nodes.mpr (.inr ⟨t, ht, hs⟩), rfl⟩
        · exact .inr ⟨⟨s, mem_nodes.mpr (.inr ⟨t, ht, hs⟩), hp⟩, hm⟩
      · exact .inr ⟨⟨.node k ts, self_mem_nodes _, hk⟩, hm⟩
    · rintro (⟨s, hs, rfl⟩ | ⟨⟨s, hs, hp⟩, hm⟩)
      · rcases mem_nodes.mp hs with rfl | ⟨t, ht, hs⟩
        · left
          rw [addArgs, addArgsOf_eq_map]
        · exact .inr (.inl ⟨_, List.mem_map_of_mem ht, (ih t ht).mpr (.inl ⟨s, hs, rfl⟩)⟩)
      · rcases mem_nodes.mp hs with rfl | ⟨t, ht, hs⟩
        · exact .inr (.inr ⟨hp, hm⟩)
        · exact .inr (.inl ⟨_, List.mem_map_of_mem ht, (ih t ht).mpr (.inr ⟨⟨s, hs, hp⟩, hm⟩)⟩)

end SyntaxTree

end OpenLaunch
