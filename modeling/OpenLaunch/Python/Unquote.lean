import OpenLaunch.Python.JsonText
import OpenLaunch.Python.Parts
import OpenLaunch.Python.TextCuts

/-! # Percent-decoding

`urllib.parse.unquote`: an escape is a percent sign and two hexadecimal digits, which stand for a
byte. The runs of ASCII characters are decoded, each on its own, and what is not ASCII is kept. A
text is unchanged exactly if it has no escape, since each escape makes it shorter. -/

namespace Python

/-! ## The decoder -/

/-- `unquote_to_bytes`, of ASCII characters. -/
def unquote_to_bytes : List Char → List UInt8
  | '%' :: a :: b :: cs =>
    match hexVal? a, hexVal? b with
    | some x, some y => UInt8.ofNat (16 * x + y) :: unquote_to_bytes cs
    | _, _ => UInt8.ofNat '%'.toNat :: unquote_to_bytes (a :: b :: cs)
  | c :: cs => UInt8.ofNat c.toNat :: unquote_to_bytes cs
  | [] => []

/-- Decoding of what follows a run of ASCII characters. -/
def unquoteFrom (run : List Char) : List Char → List Char
  | [] => decode .replace (unquote_to_bytes run)
  | c :: cs =>
    if c.toNat < 0x80 then unquoteFrom (run ++ [c]) cs
    else decode .replace (unquote_to_bytes run) ++ c :: unquoteFrom [] cs

/-- `unquote`. -/
def unquote (cs : List Char) : List Char := unquoteFrom [] cs

/-- There is a percent sign with two hexadecimal digits. -/
def HasEscape (cs : List Char) : Prop :=
  ∃ a b, (hexVal? a).isSome ∧ (hexVal? b).isSome ∧ ['%', a, b] <:+: cs

variable {as bs cs run : List Char} {a b c : Char}

/-! ## Escapes -/

theorem not_hasEscape_nil : ¬ HasEscape [] := by
  rintro ⟨a, b, -, -, h⟩
  exact absurd (List.infix_nil.mp h) (List.cons_ne_nil _ _)

theorem HasEscape.of_infix (h : HasEscape as) (hoccurs : as <:+: bs) : HasEscape bs := by
  obtain ⟨a, b, ha, hb, h⟩ := h
  exact ⟨a, b, ha, hb, h.trans hoccurs⟩

/-- An escape is on one side of a character that is no part of one. -/
theorem hasEscape_append_cons_iff (hpercent : c ≠ '%') (hhex : hexVal? c = none) :
    HasEscape (as ++ c :: bs) ↔ HasEscape as ∨ HasEscape bs := by
  have hne : ∀ a, (hexVal? a).isSome → c ≠ a := by
    rintro a ha rfl
    rw [hhex] at ha
    cases ha
  constructor
  · rintro ⟨a, b, ha, hb, h⟩
    have hc : c ∉ ['%', a, b] := by simp [hpercent, hne a ha, hne b hb]
    rcases (infix_append_cons_iff hc (List.cons_ne_nil _ _)).mp h with h | h
    · exact .inl ⟨a, b, ha, hb, h⟩
    · exact .inr ⟨a, b, ha, hb, h⟩
  · rintro (h | h)
    · exact h.of_infix (List.prefix_append as (c :: bs)).isInfix
    · exact h.of_infix ((List.suffix_cons c bs).trans (List.suffix_append as (c :: bs))).isInfix

theorem hasEscape_cons_of_ne (hc : c ≠ '%') : HasEscape (c :: cs) ↔ HasEscape cs := by
  constructor
  · rintro ⟨a, b, ha, hb, h⟩
    rcases List.infix_cons_iff.mp h with h | h
    · rw [List.cons_prefix_cons] at h
      exact absurd h.1.symm hc
    · exact ⟨a, b, ha, hb, h⟩
  · exact fun h => h.of_infix (List.suffix_cons c cs).isInfix

/-- A percent sign without two digits after it begins no escape. -/
theorem hasEscape_percent_iff : HasEscape ('%' :: cs) ↔
    (∃ a b rest, cs = a :: b :: rest ∧ (hexVal? a).isSome ∧ (hexVal? b).isSome) ∨ HasEscape cs := by
  constructor
  · rintro ⟨a, b, ha, hb, h⟩
    rcases List.infix_cons_iff.mp h with h | h
    · obtain ⟨rest, hrest⟩ := (List.cons_prefix_cons.mp h).2
      exact .inl ⟨a, b, rest, hrest.symm, ha, hb⟩
    · exact .inr ⟨a, b, ha, hb, h⟩
  · rintro (⟨a, b, rest, rfl, ha, hb⟩ | h)
    · exact ⟨a, b, ha, hb, (List.prefix_append ['%', a, b] rest).isInfix⟩
    · exact h.of_infix (List.suffix_cons '%' cs).isInfix

/-! ## The bytes -/

/-- Without an escape each character is its byte. -/
theorem unquote_to_bytes_of_not_hasEscape (h : ¬ HasEscape cs) :
    unquote_to_bytes cs = cs.map fun c => UInt8.ofNat c.toNat := by
  fun_induction unquote_to_bytes cs with
  | case1 a b cs x y hb ha ih =>
    refine absurd (hasEscape_percent_iff.mpr (.inl ⟨a, b, cs, rfl, ?_, ?_⟩)) h
    · rw [ha]
      rfl
    · rw [hb]
      rfl
  | case2 a b cs hnone ih =>
    rw [List.map_cons, ih fun hcs => h (hasEscape_percent_iff.mpr (.inr hcs))]
  | case3 c cs hc ih =>
    rw [List.map_cons, ih fun hcs => h (hcs.of_infix (List.suffix_cons c cs).isInfix)]
  | case4 => rfl

/-- **An escape makes the text shorter.** -/
theorem length_unquote_to_bytes (cs : List Char) : (unquote_to_bytes cs).length ≤ cs.length ∧
    (HasEscape cs → (unquote_to_bytes cs).length < cs.length) := by
  fun_induction unquote_to_bytes cs with
  | case1 a b cs x y hb ha ih =>
    simp only [List.length_cons]
    omega
  | case2 a b cs hnone ih =>
    simp only [List.length_cons] at ih ⊢
    refine ⟨by omega, fun h => ?_⟩
    rcases hasEscape_percent_iff.mp h with ⟨a', b', rest, heq, ha, hb⟩ | h
    · simp only [List.cons.injEq] at heq
      obtain ⟨rfl, rfl, rfl⟩ := heq
      obtain ⟨x, hx⟩ := Option.isSome_iff_exists.mp ha
      obtain ⟨y, hy⟩ := Option.isSome_iff_exists.mp hb
      exact absurd hy (hnone x y hx)
    · have hlt := ih.2 h
      omega
  | case3 c cs hc ih =>
    simp only [List.length_cons]
    refine ⟨by omega, fun h => ?_⟩
    have hcs : HasEscape cs := by
      by_cases hpercent : c = '%'
      · subst hpercent
        rcases hasEscape_percent_iff.mp h with ⟨a, b, rest, rfl, -, -⟩ | h
        · exact absurd rfl (hc a b rest rfl)
        · exact h
      · exact (hasEscape_cons_of_ne hpercent).mp h
    have hlt := ih.2 hcs
    omega
  | case4 => exact ⟨le_rfl, fun h => absurd h not_hasEscape_nil⟩

/-! ## The text -/

/-- There are no more characters than bytes. -/
theorem length_decode_le (bs : List UInt8) : (decode .replace bs).length ≤ bs.length := by
  induction bs with
  | nil => exact le_rfl
  | cons b bs ih =>
    have hle := (length_decode_append [b] bs).1
    have hone : (decode .replace [b]).length ≤ 1 := by
      rw [decode_eq, decodeRest_cons, decodeByte, firstByte]
      split_ifs <;> exact le_rfl
    rw [List.singleton_append] at hle
    rw [List.length_cons]
    omega

/-- The bytes of ASCII characters are read as these. -/
theorem decode_ascii (h : ∀ c ∈ cs, c.toNat < 0x80) :
    decode .replace (cs.map fun c => UInt8.ofNat c.toNat) = cs := by
  rw [decode_eq]
  induction cs with
  | nil => rfl
  | cons c cs ih =>
    obtain ⟨hc, hcs⟩ := List.forall_mem_cons.mp h
    have hbyte : (UInt8.ofNat c.toNat).toNat = c.toNat := toNat_ofNat_of_lt (by omega)
    rw [List.map_cons, decodeRest_cons, decodeByte, firstByte]
    simp only [hbyte, if_pos hc]
    rw [ih hcs, Char.ofNat_toNat]
    rfl

/-- A run of ASCII characters. -/
theorem decode_run (h : ∀ c ∈ run, c.toNat < 0x80) :
    (decode .replace (unquote_to_bytes run)).length ≤ run.length ∧
      (decode .replace (unquote_to_bytes run) = run ↔ ¬ HasEscape run) := by
  have hdecode := length_decode_le (unquote_to_bytes run)
  obtain ⟨hle, hlt⟩ := length_unquote_to_bytes run
  refine ⟨hdecode.trans hle, fun heq hescape => ?_, fun hnone => ?_⟩
  · have hshorter := hlt hescape
    have hlength := congrArg List.length heq
    omega
  · rw [unquote_to_bytes_of_not_hasEscape hnone, decode_ascii h]

theorem hexVal?_of_not_ascii (h : ¬ c.toNat < 0x80) : hexVal? c = none := by
  have hle : ∀ d : Char, d.toNat < 0x80 → ¬ c ≤ d := fun d hd hcd =>
    h ((UInt32.le_iff_toNat_le.mp (Char.le_def.mp hcd)).trans_lt hd)
  rw [hexVal?, if_neg fun hc => hle '9' (by decide) hc.2, if_neg fun hc => hle 'f' (by decide) hc.2,
    if_neg fun hc => hle 'F' (by decide) hc.2]

/-- What follows a run is unchanged exactly if there is no escape in it or in the run. -/
theorem unquoteFrom_run (h : ∀ c ∈ run, c.toNat < 0x80) (cs : List Char) :
    (unquoteFrom run cs).length ≤ run.length + cs.length ∧
      (unquoteFrom run cs = run ++ cs ↔ ¬ HasEscape (run ++ cs)) := by
  induction cs generalizing run with
  | nil =>
    rw [unquoteFrom, List.append_nil]
    exact decode_run h
  | cons c cs ih =>
    rw [unquoteFrom]
    split_ifs with hc
    · have hrun : ∀ c' ∈ run ++ [c], c'.toNat < 0x80 :=
        List.forall_mem_append.mpr ⟨h, List.forall_mem_singleton.mpr hc⟩
      have hgoes := ih hrun
      rw [List.append_assoc, List.singleton_append, List.length_append] at hgoes
      refine ⟨?_, hgoes.2⟩
      have hlength := hgoes.1
      simp only [List.length_cons, List.length_nil] at hlength ⊢
      omega
    · -- the run ends, and its length is that of its text only if it has no escape
      have hpercent : c ≠ '%' := by
        rintro rfl
        exact hc (by decide)
      have hhex := hexVal?_of_not_ascii hc
      obtain ⟨hrunLength, hrun⟩ := decode_run h
      obtain ⟨hrestLength, hrest⟩ := @ih [] nofun
      rw [List.length_nil, Nat.zero_add] at hrestLength
      rw [List.nil_append] at hrest
      rw [hasEscape_append_cons_iff hpercent hhex, not_or, ← hrun, ← hrest, List.length_append,
        List.length_cons, List.length_cons]
      refine ⟨by omega, fun heq => ?_, fun ⟨hrun, hrest⟩ => ?_⟩
      · have hlength := congrArg List.length heq
        simp only [List.length_append, List.length_cons] at hlength
        obtain ⟨hfirst, hsecond⟩ := List.append_inj heq (by omega)
        exact ⟨hfirst, (List.cons.inj hsecond).2⟩
      · rw [hrun, hrest]

/-- **A text is unchanged exactly if it has no escape.** -/
theorem unquote_eq_self_iff : unquote cs = cs ↔ ¬ HasEscape cs := by
  have h := (@unquoteFrom_run [] nofun cs).2
  rw [List.nil_append] at h
  exact h

/-- An escape makes what follows a run shorter. -/
theorem length_unquoteFrom_lt (h : ∀ c ∈ run, c.toNat < 0x80) (hescape : HasEscape (run ++ cs)) :
    (unquoteFrom run cs).length < run.length + cs.length := by
  induction cs generalizing run with
  | nil =>
    rw [List.append_nil] at hescape
    exact (length_decode_le _).trans_lt ((length_unquote_to_bytes run).2 hescape)
  | cons c cs ih =>
    rw [unquoteFrom]
    split_ifs with hc
    · have hrun : ∀ c' ∈ run ++ [c], c'.toNat < 0x80 :=
        List.forall_mem_append.mpr ⟨h, List.forall_mem_singleton.mpr hc⟩
      rw [List.append_cons] at hescape
      have hlt := ih hrun hescape
      simp only [List.length_append, List.length_cons, List.length_nil] at hlt ⊢
      omega
    · have hpercent : c ≠ '%' := by
        rintro rfl
        exact hc (by decide)
      have hrunLength := (decode_run h).1
      have hrestLength := (@unquoteFrom_run [] nofun cs).1
      rw [List.length_nil, Nat.zero_add] at hrestLength
      rw [List.length_append, List.length_cons, List.length_cons]
      rcases (hasEscape_append_cons_iff hpercent (hexVal?_of_not_ascii hc)).mp hescape with
        hescape | hescape
      · have hlt := (length_decode_le _).trans_lt ((length_unquote_to_bytes run).2 hescape)
        omega
      · have hlt := @ih [] nofun hescape
        rw [List.length_nil, Nat.zero_add] at hlt
        omega

/-- A text of the same length as what it is decoded to has no escape. -/
theorem length_unquote (cs : List Char) : (unquote cs).length ≤ cs.length ∧
    ((unquote cs).length = cs.length → ¬ HasEscape cs) := by
  have hle := (@unquoteFrom_run [] nofun cs).1
  rw [List.length_nil, Nat.zero_add] at hle
  refine ⟨hle, fun heq hescape => ?_⟩
  have hlt := @length_unquoteFrom_lt cs [] nofun hescape
  rw [List.length_nil, Nat.zero_add] at hlt
  exact absurd heq hlt.ne

/-- A character begun is never lost. -/
theorem decodeRest_pending_ne_nil (p : Pending) (bs : List UInt8) :
    decodeRest .replace (some p) bs ≠ [] := by
  induction bs generalizing p with
  | nil => exact List.cons_ne_nil _ _
  | cons b bs ih =>
    by_cases hgoes : p.GoesOn (b :: bs)
    · obtain ⟨b', hb', hlow, hhigh⟩ := hgoes
      obtain rfl := Option.mem_some_iff.mp hb'
      rcases decodeRest_of_goesOn hlow hhigh bs with ⟨c, hc⟩ | ⟨p', hp'⟩
      · rw [hc]
        exact List.cons_ne_nil _ _
      · rw [hp']
        exact ih p'
    · rw [decodeRest_of_not_goesOn hgoes]
      exact List.cons_ne_nil _ _

/-- Bytes are read as some text. -/
theorem decode_ne_nil {bs : List UInt8} (h : bs ≠ []) : decode .replace bs ≠ [] := by
  obtain ⟨b, bs, rfl⟩ := List.exists_cons_of_ne_nil h
  have hfirst : (firstByte .replace b).1 ≠ [] ∨ ∃ p, (firstByte .replace b).2 = some p := by
    unfold firstByte
    dsimp only
    split_ifs <;> simp [OnError.text]
  rw [decode_eq, decodeRest_cons, decodeByte]
  rcases hfirst with hfirst | ⟨p, hp⟩
  · exact fun hnil => hfirst (List.append_eq_nil_iff.mp hnil).1
  · rw [hp]
    exact fun hnil => decodeRest_pending_ne_nil p bs (List.append_eq_nil_iff.mp hnil).2

theorem unquote_to_bytes_ne_nil (h : cs ≠ []) : unquote_to_bytes cs ≠ [] := by
  fun_cases unquote_to_bytes cs with
  | case1 a b cs x y hb ha => exact List.cons_ne_nil _ _
  | case2 a b cs hnone => exact List.cons_ne_nil _ _
  | case3 c cs hc => exact List.cons_ne_nil _ _
  | case4 => exact absurd rfl h

theorem unquoteFrom_ne_nil (h : run ++ cs ≠ []) : unquoteFrom run cs ≠ [] := by
  induction cs generalizing run with
  | nil =>
    rw [List.append_nil] at h
    exact decode_ne_nil (unquote_to_bytes_ne_nil h)
  | cons c cs ih =>
    rw [unquoteFrom]
    split_ifs with hc
    · refine ih ?_
      rw [List.append_assoc]
      exact h
    · simp

/-- A text is decoded to some text. -/
theorem unquote_ne_nil (h : cs ≠ []) : unquote cs ≠ [] := unquoteFrom_ne_nil h


/-- ASCII text is decoded as one run. -/
theorem unquoteFrom_ascii (h : ∀ c ∈ cs, c.toNat < 0x80) (run : List Char) :
    unquoteFrom run cs = decode .replace (unquote_to_bytes (run ++ cs)) := by
  induction cs generalizing run with
  | nil => rw [unquoteFrom, List.append_nil]
  | cons c cs ih =>
    obtain ⟨hc, hcs⟩ := List.forall_mem_cons.mp h
    rw [unquoteFrom, if_pos hc, ih hcs, List.append_assoc, List.singleton_append]

end Python
