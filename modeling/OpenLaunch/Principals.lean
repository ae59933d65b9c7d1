import Mathlib.Data.Set.Lattice

/-! # Grants to principals

A grant gives a permission to a principal: to everyone, to one user, or to the members of one group.
`Allows` is the rule such grants stand for. Nothing here depends on how users, groups or permissions
are represented. -/

universe u v w

variable {U : Type u} {G : Type v} {P : Type w}

/-- Whom a grant is for. -/
inductive Principal (U : Type u) (G : Type v)
  /-- The wildcard. -/
  | everyone
  /-- One user. -/
  | user (u : U)
  /-- The members of one group. -/
  | group (g : G)
  deriving DecidableEq

/-- The users a principal covers; `groups` are the groups of the user `u`. -/
def Principal.Covers (u : U) (groups : Set G) : Principal U G → Prop
  | .everyone => True
  | .user u' => u' = u
  | .group g => g ∈ groups

/-- **The rule of a set of grants**: some grant of the permission covers the user. -/
def Allows (grants : Set (Principal U G × P)) (u : U) (groups : Set G) (p : P) : Prop :=
  ∃ q, (q, p) ∈ grants ∧ q.Covers u groups

section Allows

variable {grants grants' : Set (Principal U G × P)} {u : U} {groups : Set G} {p : P}

end Allows
