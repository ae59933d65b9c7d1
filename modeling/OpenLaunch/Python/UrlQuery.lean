import OpenLaunch.Python.Dict
import OpenLaunch.Python.Unquote

/-! # Query strings

`urllib.parse.parse_qs` reads the parameters of a query, and `urlencode` writes them. What is
written is read back. -/

namespace Python

/-! ## Values -/

/-- `c.replace('+', ' ')`, of one character. -/
def plusToSpace (c : Char) : Char := if c = '+' then ' ' else c

/-- `unquote_plus`. -/
def unquote_plus (cs : List Char) : List Char := unquote (cs.map plusToSpace)

/-- The characters that `quote` always leaves as they are. -/
def isUnreserved (c : Char) : Bool :=
  ('A' ≤ c && c ≤ 'Z') || ('a' ≤ c && c ≤ 'z') || ('0' ≤ c && c ≤ '9') ||
    c = '_' || c = '.' || c = '-' || c = '~'

/-- The upper-case hexadecimal digit of `n < 16`. -/
def upperHexDigit (n : ℕ) : Char := if n < 10 then Char.ofNat (48 + n) else Char.ofNat (55 + n)

/-- A byte of what `quote_plus` writes. -/
def quoteByte (b : UInt8) : List Char :=
  if Char.ofNat b.toNat = ' ' then ['+']
  else if isUnreserved (Char.ofNat b.toNat) then [Char.ofNat b.toNat]
  else ['%', upperHexDigit (b.toNat / 16), upperHexDigit (b.toNat % 16)]

/-- `quote_plus`. -/
def quote_plus (cs : List Char) : List Char := (encode cs).flatMap quoteByte

/-! ## Queries -/

/-- A field `name=value`, where `=value` may be missing. -/
def readField (name_value : List Char) : List Char × List Char :=
  (unquote_plus (name_value.takeWhile (· ≠ '=')),
    unquote_plus ((name_value.dropWhile (· ≠ '=')).drop 1))

/-- `parse_qsl(qs, keep_blank_values=True)`. -/
def parse_qsl (qs : List Char) : List (List Char × List Char) :=
  ((qs.splitOn '&').filter fun name_value => name_value ≠ []).map readField

/-- One more value of a parameter. -/
def addValue (d : Dict (List Char) (List (List Char))) (e : List Char × List Char) :
    Dict (List Char) (List (List Char)) :=
  match d.get? e.1 with
  | some vs => d.set e.1 (vs ++ [e.2])
  | none => d.set e.1 [e.2]

/-- `parse_qs(qs, keep_blank_values=True)`. -/
def parse_qs (qs : List Char) : Dict (List Char) (List (List Char)) :=
  (parse_qsl qs).foldl addValue .empty

/-- A field that is written. -/
def writeField (k v : List Char) : List Char := quote_plus k ++ '=' :: quote_plus v

/-- `urlencode(d, doseq=True)`. -/
def urlencode (d : Dict (List Char) (List (List Char))) : List Char :=
  ['&'].intercalate (d.entries.flatMap fun e => e.2.map (writeField e.1))

/-- The values of a parameter, in their order. -/
def valuesOf (es : List (List Char × List Char)) (k : List Char) : List (List Char) :=
  (es.filter fun e => e.1 = k).map Prod.snd

variable {cs qs k v : List Char} {c : Char} {b : UInt8} {es es' : List (List Char × List Char)}
  {d : Dict (List Char) (List (List Char))}

/-! ## Written values -/

theorem upperHexDigit_spec : ∀ n : Fin 16, hexVal? (upperHexDigit n) = some n.val ∧
    isUnreserved (upperHexDigit n) ∧ (upperHexDigit n).toNat < 0x80 ∧ upperHexDigit n ≠ '+' := by
  decide

/-- A character that is left as it is. -/
theorem isUnreserved_spec (h : isUnreserved c) : c.toNat < 0x80 ∧ c ≠ '%' ∧ c ≠ '+' := by
  refine ⟨?_, ?_, ?_⟩
  · have hle : ∀ d : Char, d.toNat < 0x80 → c ≤ d → c.toNat < 0x80 := fun d hd hcd =>
      (UInt32.le_iff_toNat_le.mp (Char.le_def.mp hcd)).trans_lt hd
    simp only [isUnreserved, Bool.or_eq_true, Bool.and_eq_true, decide_eq_true_eq] at h
    rcases h with (((((h | h) | h) | rfl) | rfl) | rfl) | rfl
    · exact hle 'Z' (by decide) h.2
    · exact hle 'z' (by decide) h.2
    · exact hle '9' (by decide) h.2
    all_goals decide
  · rintro rfl
    exact absurd h (by decide)
  · rintro rfl
    exact absurd h (by decide)

theorem toNat_ofNat_byte (b : UInt8) : (Char.ofNat b.toNat).toNat = b.toNat := by
  have hb : b.toNat < 256 := b.toNat_lt
  have hvalid : b.toNat.isValidChar := .inl (by omega)
  unfold Char.ofNat
  rw [dif_pos hvalid]
  rfl

/-- A byte that is written is the first of what is read back. -/
theorem unquote_to_bytes_quoteByte (b : UInt8) (cs : List Char) :
    unquote_to_bytes ((quoteByte b).map plusToSpace ++ cs) = b :: unquote_to_bytes cs := by
  have hb : b.toNat < 256 := b.toNat_lt
  unfold quoteByte
  split_ifs with hspace hplain
  · -- a space is written as a plus sign
    have hbyte : b = 0x20 := by
      have hnat : b.toNat = 0x20 := by
        have h := congrArg Char.toNat hspace
        rwa [toNat_ofNat_byte] at h
      exact UInt8.toNat_inj.mp hnat
    rw [hbyte]
    rfl
  · obtain ⟨-, hpercent, hplus⟩ := isUnreserved_spec hplain
    rw [List.map_cons, List.map_nil, plusToSpace, if_neg hplus, List.singleton_append,
      unquote_to_bytes.eq_2 _ _ fun _ _ _ h _ => hpercent h, toNat_ofNat_byte,
      UInt8.ofNat_toNat]
  · obtain ⟨hhigh, -, -, hne⟩ := upperHexDigit_spec ⟨b.toNat / 16, by omega⟩
    obtain ⟨hlow, -, -, hne'⟩ := upperHexDigit_spec ⟨b.toNat % 16, by omega⟩
    simp only at hhigh hlow hne hne'
    simp only [List.map_cons, List.map_nil, plusToSpace, if_neg hne, if_neg hne', List.cons_append,
      List.nil_append]
    rw [if_neg (by decide), unquote_to_bytes, hhigh, hlow]
    simp only
    rw [Nat.div_add_mod, UInt8.ofNat_toNat]

theorem unquote_to_bytes_flatMap (bs : List UInt8) :
    unquote_to_bytes ((bs.flatMap quoteByte).map plusToSpace) = bs := by
  induction bs with
  | nil => rfl
  | cons b bs ih => rw [List.flatMap_cons, List.map_append, unquote_to_bytes_quoteByte, ih]

/-- The characters that are written. -/
theorem mem_quote_plus (h : c ∈ quote_plus cs) : c = '+' ∨ c = '%' ∨
    isUnreserved c ∧ c.toNat < 0x80 := by
  obtain ⟨b, -, hc⟩ := List.mem_flatMap.mp h
  have hb : b.toNat < 256 := b.toNat_lt
  unfold quoteByte at hc
  split_ifs at hc with hspace hplain
  · exact .inl (List.mem_singleton.mp hc)
  · rw [List.mem_singleton.mp hc]
    exact .inr (.inr ⟨hplain, (isUnreserved_spec hplain).1⟩)
  · obtain ⟨-, hhigh, hhigh', -⟩ := upperHexDigit_spec ⟨b.toNat / 16, by omega⟩
    obtain ⟨-, hlow, hlow', -⟩ := upperHexDigit_spec ⟨b.toNat % 16, by omega⟩
    simp only [List.mem_cons, List.not_mem_nil, or_false] at hc
    rcases hc with rfl | rfl | rfl
    · exact .inr (.inl rfl)
    · exact .inr (.inr ⟨hhigh, hhigh'⟩)
    · exact .inr (.inr ⟨hlow, hlow'⟩)

/-- A character that is neither left as it is nor part of an escape is not written. -/
theorem not_mem_quote_plus (hplain : isUnreserved c = false) (hplus : c ≠ '+')
    (hpercent : c ≠ '%') : c ∉ quote_plus cs := by
  intro h
  rcases mem_quote_plus h with h | h | ⟨h, -⟩
  · exact hplus h
  · exact hpercent h
  · rw [hplain] at h
    cases h

/-- **A value that is written is read back.** -/
theorem unquote_plus_quote_plus (cs : List Char) : unquote_plus (quote_plus cs) = cs := by
  have hascii : ∀ c ∈ (quote_plus cs).map plusToSpace, c.toNat < 0x80 := by
    intro c hc
    obtain ⟨c, hmem, rfl⟩ := List.mem_map.mp hc
    unfold plusToSpace
    split_ifs with hplus
    · decide
    · rcases mem_quote_plus hmem with rfl | rfl | ⟨-, h⟩
      · exact absurd rfl hplus
      · decide
      · exact h
  rw [unquote_plus, unquote, unquoteFrom_ascii hascii, List.nil_append, quote_plus,
    unquote_to_bytes_flatMap, decode, decodeFrom_encode]

/-! ## Written queries -/

/-- A field with an equals sign is cut at the first one. -/
theorem readField_append (h : '=' ∉ k) (v : List Char) :
    readField (k ++ '=' :: v) = (unquote_plus k, unquote_plus v) := by
  have hk : ∀ c ∈ k, decide (c ≠ '=') = true := fun c hc =>
    decide_eq_true fun heq => h (heq ▸ hc)
  rw [readField, List.takeWhile_append_of_pos hk, List.dropWhile_append_of_pos hk]
  simp

theorem readField_writeField (k v : List Char) : readField (writeField k v) = (k, v) := by
  have hk : '=' ∉ quote_plus k := not_mem_quote_plus (by decide) (by decide) (by decide)
  rw [writeField, readField_append hk, unquote_plus_quote_plus, unquote_plus_quote_plus]

/-- The characters of a field that is written. -/
theorem not_mem_writeField (hplain : isUnreserved c = false)
    (hother : c ≠ '+' ∧ c ≠ '%' ∧ c ≠ '=') : c ∉ writeField k v := by
  obtain ⟨hplus, hpercent, hequals⟩ := hother
  rw [writeField, List.mem_append, List.mem_cons]
  rintro (h | h | h)
  · exact not_mem_quote_plus hplain hplus hpercent h
  · exact hequals h
  · exact not_mem_quote_plus hplain hplus hpercent h

/-- A query is read from separator to separator. -/
theorem parse_qsl_append (qs qs' : List Char) :
    parse_qsl (qs ++ '&' :: qs') = parse_qsl qs ++ parse_qsl qs' := by
  simp only [parse_qsl, List.splitOn_append_cons_self, List.filter_append, List.map_append]

theorem parse_qsl_intercalate {fields : List (List Char)}
    (h : ∀ f ∈ fields, '&' ∉ f ∧ f ≠ []) :
    parse_qsl (['&'].intercalate fields) = fields.map readField := by
  by_cases hnil : fields = []
  · subst hnil
    rfl
  · have hall : fields.filter (fun f => decide (f ≠ [])) = fields :=
      List.filter_eq_self.mpr fun f hf => decide_eq_true (h f hf).2
    rw [parse_qsl, List.splitOn_intercalate '&' (fun f hf => (h f hf).1) hnil, hall]

/-- **A query that is written is read back.** -/
theorem parse_qsl_urlencode (d : Dict (List Char) (List (List Char))) :
    parse_qsl (urlencode d) = d.entries.flatMap fun e => e.2.map fun v => (e.1, v) := by
  have hfield : ∀ f ∈ d.entries.flatMap (fun e => e.2.map (writeField e.1)), '&' ∉ f ∧ f ≠ [] := by
    intro f hf
    obtain ⟨e, -, hf⟩ := List.mem_flatMap.mp hf
    obtain ⟨v, -, rfl⟩ := List.mem_map.mp hf
    refine ⟨not_mem_writeField (by decide) (by decide), fun hnil => ?_⟩
    exact absurd (List.append_eq_nil_iff.mp hnil).2 (List.cons_ne_nil _ _)
  rw [urlencode, parse_qsl_intercalate hfield, List.map_flatMap]
  refine congrArg d.entries.flatMap (funext fun e => ?_)
  rw [List.map_map]
  refine List.map_congr_left fun v _ => ?_
  exact readField_writeField e.1 v

/-- The characters of a query that is written. -/
theorem not_mem_urlencode (hplain : isUnreserved c = false)
    (hother : c ≠ '+' ∧ c ≠ '%' ∧ c ≠ '=') (hampersand : c ≠ '&') : c ∉ urlencode d := by
  intro h
  rcases mem_intercalate h with h | ⟨f, hf, h⟩
  · exact hampersand h
  · obtain ⟨e, -, hf⟩ := List.mem_flatMap.mp hf
    obtain ⟨v, -, rfl⟩ := List.mem_map.mp hf
    exact not_mem_writeField hplain hother h

/-! ## The values of a parameter -/

theorem valuesOf_append (es es' : List (List Char × List Char)) (k : List Char) :
    valuesOf (es ++ es') k = valuesOf es k ++ valuesOf es' k := by
  rw [valuesOf, List.filter_append, List.map_append]
  rfl

@[simp] theorem valuesOf_nil (k : List Char) : valuesOf [] k = [] := rfl

theorem valuesOf_cons_self (k v : List Char) (es : List (List Char × List Char)) :
    valuesOf ((k, v) :: es) k = v :: valuesOf es k := by
  simp [valuesOf]

theorem valuesOf_cons_ne {k' : List Char} (h : k' ≠ k) (v : List Char)
    (es : List (List Char × List Char)) : valuesOf ((k', v) :: es) k = valuesOf es k := by
  simp [valuesOf, h]

theorem getD_foldl_addValue (es : List (List Char × List Char))
    (d : Dict (List Char) (List (List Char))) (k : List Char) :
    ((es.foldl addValue d).get? k).getD [] = (d.get? k).getD [] ++ valuesOf es k := by
  induction es generalizing d with
  | nil => exact (List.append_nil _).symm
  | cons e es ih =>
    obtain ⟨k', v⟩ := e
    have hget : ((addValue d (k', v)).get? k).getD [] =
        (d.get? k).getD [] ++ if k = k' then [v] else [] := by
      unfold addValue
      dsimp only
      by_cases hk : k = k'
      · subst hk
        rw [if_pos rfl]
        cases hd : d.get? k with
        | some vs => simp
        | none => simp
      · rw [if_neg hk]
        cases hd : d.get? k' with
        | some vs => simp [Dict.get?_set_ne d hk]
        | none => simp [Dict.get?_set_ne d hk]
    rw [List.foldl_cons, ih, hget, List.append_assoc]
    by_cases hk : k = k'
    · subst hk
      rw [if_pos rfl, valuesOf_cons_self]
      rfl
    · rw [if_neg hk, valuesOf_cons_ne (Ne.symm hk)]
      rfl

/-- **What is read of a parameter are its values.** -/
theorem getD_parse_qs (qs k : List Char) :
    ((parse_qs qs).get? k).getD [] = valuesOf (parse_qsl qs) k :=
  getD_foldl_addValue (parse_qsl qs) .empty k

/-- The values of the entries of a dictionary. -/
theorem valuesOf_entries (d : Dict (List Char) (List (List Char))) (k : List Char) :
    valuesOf (d.entries.flatMap fun e => e.2.map fun v => (e.1, v)) k = (d.get? k).getD [] := by
  obtain ⟨entries, hnodup⟩ := d
  show _ = (Assoc.get? entries k).getD []
  induction entries with
  | nil => rfl
  | cons e entries ih =>
    obtain ⟨k', vs⟩ := e
    obtain ⟨hnot, hrest⟩ := List.nodup_cons.mp hnodup
    rw [List.flatMap_cons, valuesOf_append, ih hrest, Assoc.get?_cons]
    by_cases hk : k' = k
    · subst hk
      have hnone : Assoc.get? entries k' = none := (Assoc.get?_eq_none_iff entries k').mpr hnot
      simp [hnone, valuesOf, List.filter_map, Function.comp_def]
    · simp [hk, valuesOf, List.filter_map, Function.comp_def]

/-- **Each parameter of a query that is written has its values.** -/
theorem valuesOf_urlencode (d : Dict (List Char) (List (List Char))) (k : List Char) :
    valuesOf (parse_qsl (urlencode d)) k = (d.get? k).getD [] := by
  rw [parse_qsl_urlencode, valuesOf_entries]

end Python
