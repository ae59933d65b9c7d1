import OpenLaunch.Python.Text

/-! # Blank text

A text is blank where all its characters are whitespace, solid where none is, and tight where neither
its first nor its last is. `strip` takes the blank ends of a text away and leaves it tight. -/

namespace Python

/-- Every character is whitespace. -/
def Blank (cs : List Char) : Prop := ∀ c ∈ cs, isSpace c = true

/-- No character is whitespace. -/
def Solid (cs : List Char) : Prop := ∀ c ∈ cs, isSpace c = false

/-- Neither end is whitespace. -/
structure Tight (cs : List Char) : Prop where
  first : ∀ c rest, cs = c :: rest → isSpace c = false
  last : ∀ c rest, cs = rest ++ [c] → isSpace c = false

instance (cs : List Char) : Decidable (Blank cs) := List.decidableBAll _ cs

instance (cs : List Char) : Decidable (Solid cs) := List.decidableBAll _ cs

/-! ## Blank and solid texts -/

section Ends

variable {as bs cs : List Char}

@[simp] theorem blank_nil : Blank [] := nofun

@[simp] theorem solid_nil : Solid [] := nofun

@[simp] theorem blank_append : Blank (as ++ bs) ↔ Blank as ∧ Blank bs := List.forall_mem_append

@[simp] theorem solid_append : Solid (as ++ bs) ↔ Solid as ∧ Solid bs := List.forall_mem_append

/-- Only the empty text is both. -/
theorem Blank.eq_nil_of_solid (hblank : Blank cs) (hsolid : Solid cs) : cs = [] := by
  cases cs with
  | nil => rfl
  | cons c cs =>
    have hc := hblank c (List.mem_cons_self ..)
    rw [hsolid c (List.mem_cons_self ..)] at hc
    cases hc

theorem Solid.tight (h : Solid cs) : Tight cs := by
  constructor
  · rintro c rest rfl
    exact h c (List.mem_cons_self ..)
  · rintro c rest rfl
    exact h c (List.mem_append_right _ (List.mem_singleton.mpr rfl))

theorem tight_nil : Tight [] := solid_nil.tight

/-- A tight text that is blank is empty. -/
theorem Tight.eq_nil_of_blank (h : Tight cs) (hblank : Blank cs) : cs = [] := by
  cases cs with
  | nil => rfl
  | cons c cs =>
    have hc := hblank c (List.mem_cons_self ..)
    rw [h.first c cs rfl] at hc
    cases hc

/-- Two tight texts with anything between them. -/
theorem Tight.append (has : Tight as) (hcs : Tight cs) (has' : as ≠ []) (hcs' : cs ≠ []) :
    Tight (as ++ bs ++ cs) := by
  constructor
  · intro c rest h
    cases as with
    | nil => exact absurd rfl has'
    | cons a as =>
      injection h with ha
      subst ha
      exact has.first a as rfl
  · intro c rest h
    obtain ⟨front, x, rfl⟩ : ∃ front x, cs = front ++ [x] :=
      ⟨cs.dropLast, cs.getLast hcs', (List.dropLast_append_getLast hcs').symm⟩
    rw [← List.append_assoc] at h
    obtain ⟨-, hx⟩ := List.append_inj' h rfl
    injection hx with hx
    subst hx
    exact hcs.last x front rfl

/-! ## Stripping -/

/-- `strip` is determined by a tight text between blank ends. -/
theorem strip_eq (has : Blank as) (hbs : Tight bs) (hcs : Blank cs) :
    strip (as ++ bs ++ cs) = bs := by
  unfold strip
  rw [List.append_assoc, List.dropWhile_append_of_pos has]
  cases bs with
  | nil =>
    have hnil : cs.dropWhile isSpace = [] := by
      rw [List.dropWhile_eq_nil_iff]
      exact hcs
    rw [List.nil_append, hnil]
    rfl
  | cons b bs =>
    have hb : ¬ isSpace b = true := by
      rw [hbs.first b bs rfl]
      exact Bool.false_ne_true
    rw [List.cons_append, List.dropWhile_cons_of_neg hb, ← List.cons_append]
    -- the blank end goes, and the last character of the tight text stays
    rw [List.rdropWhile, List.reverse_append, List.dropWhile_append_of_pos (by simpa [Blank] using hcs)]
    have hself : (b :: bs).rdropWhile isSpace = b :: bs := by
      rw [List.rdropWhile_eq_self_iff]
      intro hne hlast
      have := hbs.last _ _ (List.dropLast_append_getLast hne).symm
      rw [this] at hlast
      cases hlast
    exact hself

theorem strip_split (cs : List Char) :
    ∃ as bs, cs = as ++ strip cs ++ bs ∧ Blank as ∧ Tight (strip cs) ∧ Blank bs := by
  have hfront := List.takeWhile_append_dropWhile (p := isSpace) (l := cs)
  have hback := @List.rdropWhile_append_rtakeWhile _ isSpace (cs.dropWhile isSpace)
  refine ⟨cs.takeWhile isSpace, (cs.dropWhile isSpace).rtakeWhile isSpace, ?_, ?_, ?_, ?_⟩
  · rw [List.append_assoc]
    unfold strip
    rw [hback, hfront]
  · intro c hc
    exact List.mem_takeWhile_imp hc
  · unfold strip
    constructor
    · intro c rest h
      obtain ⟨t, ht⟩ := List.rdropWhile_prefix isSpace (cs.dropWhile isSpace)
      rw [h] at ht
      have hne : cs.dropWhile isSpace ≠ [] := by
        rw [← ht]
        exact List.cons_ne_nil _ _
      have hhead := List.head_dropWhile_not isSpace hne
      simp only [← ht, List.cons_append, List.head_cons] at hhead
      exact hhead
    · intro c rest h
      have hne : (cs.dropWhile isSpace).rdropWhile isSpace ≠ [] := by
        rw [h]
        simp
      have hlast := List.rdropWhile_last_not isSpace (cs.dropWhile isSpace) hne
      simp only [h, List.getLast_append_singleton, Bool.not_eq_true] at hlast
      exact hlast
  · intro c hc
    exact List.mem_rtakeWhile_imp hc

theorem Tight.strip_eq (h : Tight cs) : strip cs = cs := by
  have hstrip : strip ([] ++ cs ++ []) = cs := Python.strip_eq blank_nil h blank_nil
  rwa [List.nil_append, List.append_nil] at hstrip

theorem tight_strip (cs : List Char) : Tight (strip cs) :=
  let ⟨_, _, _, _, h, _⟩ := strip_split cs
  h

@[simp] theorem strip_strip (cs : List Char) : strip (strip cs) = strip cs :=
  (tight_strip cs).strip_eq

theorem strip_eq_nil_iff : strip cs = [] ↔ Blank cs := by
  constructor
  · intro h
    obtain ⟨as, bs, hcs, has, -, hbs⟩ := strip_split cs
    rw [h, List.append_nil] at hcs
    rw [hcs, blank_append]
    exact ⟨has, hbs⟩
  · intro h
    have hstrip : strip (cs ++ [] ++ []) = [] := Python.strip_eq h tight_nil blank_nil
    rwa [List.append_nil, List.append_nil] at hstrip

@[simp] theorem strip_nil : strip [] = [] := strip_eq_nil_iff.mpr blank_nil

end Ends

end Python
