import OpenLaunch.Python.JsonText
import Mathlib.Data.List.TakeDrop
import Mathlib.Data.List.TakeWhile
import Mathlib.Tactic.Tauto

/-! # Reading back what was written

`json.loads` undoes `json.dumps`: the text of a value whose objects have no key twice reads as that
value, under every choice of the options that keeps the separators of JSON. A value is read in front
of any text that does not go on with it, which is what an induction over the value needs. -/

namespace Python

/-! ## Numbers -/

/-- A character that no number literal goes on with. -/
def endsNumber (c : Char) : Bool :=
  !isDigit c && c ≠ '.' && c ≠ 'e' && c ≠ 'E' && c ≠ '+' && c ≠ '-'

/-- A text in front of which a number literal ends. -/
def Delimited (rest : List Char) : Prop := ∀ c, rest.head? = some c → endsNumber c = true

theorem delimited_nil : Delimited [] := by
  intro c hc
  cases hc

theorem delimited_cons {c : Char} (h : endsNumber c = true) (cs : List Char) :
    Delimited (c :: cs) := by
  intro d hd
  cases hd
  exact h

section

variable {rest : List Char} (hrest : Delimited rest)

include hrest

theorem spanDigits_delimited : spanDigits rest = ([], rest) := by
  cases rest with
  | nil => rfl
  | cons c cs =>
    have hc : isDigit c = false := by
      have := hrest c rfl
      simp only [endsNumber, Bool.and_eq_true] at this
      simpa using this.1.1.1.1.1
    simp [spanDigits, List.span_eq_takeWhile_dropWhile, hc]

theorem spanDigits_append (cs : List Char) :
    spanDigits (cs ++ rest) = ((spanDigits cs).1, (spanDigits cs).2 ++ rest) := by
  induction cs with
  | nil => exact spanDigits_delimited hrest
  | cons c cs ih =>
    simp only [spanDigits, List.span_eq_takeWhile_dropWhile, Prod.mk.injEq] at ih ⊢
    by_cases hc : isDigit c = true
    · simp [hc, ih.1, ih.2]
    · simp [hc]

theorem spanInt_append (cs : List Char) (hne : cs ≠ []) :
    spanInt (cs ++ rest) = ((spanInt cs).1, (spanInt cs).2 ++ rest) := by
  cases cs with
  | nil => exact absurd rfl hne
  | cons c cs =>
    by_cases hc : c = '0'
    · subst hc
      rfl
    · have hspan : ∀ ds, spanInt (c :: ds) = spanDigits (c :: ds) := by
        intro ds
        rw [spanInt]
        simpa using hc
      rw [List.cons_append, hspan, hspan]
      exact spanDigits_append hrest (c :: cs)

theorem spanFrac_append (cs : List Char) :
    spanFrac (cs ++ rest) = ((spanFrac cs).1, (spanFrac cs).2 ++ rest) := by
  have hother : ∀ ds : List Char, ds.head? ≠ some '.' → spanFrac ds = ([], ds) := by
    intro ds hds
    rw [spanFrac]
    intro es hes
    exact hds (by rw [hes]; rfl)
  cases cs with
  | nil =>
    have hhead : rest.head? ≠ some '.' := fun h => absurd (hrest _ h) (by decide)
    rw [List.nil_append, hother rest hhead]
    rfl
  | cons c cs =>
    by_cases hc : c = '.'
    · subst hc
      rw [List.cons_append, spanFrac, spanFrac, spanDigits_append hrest]
      rcases spanDigits cs with ⟨_ | ⟨d, ds⟩, r⟩ <;> rfl
    · rw [List.cons_append, hother _ (by simpa using hc), hother _ (by simpa using hc)]
      rfl

theorem spanExp_append (cs : List Char) :
    spanExp (cs ++ rest) = ((spanExp cs).1, (spanExp cs).2 ++ rest) := by
  have hsign : spanSign rest = ([], rest) := by
    rw [spanSign]
    · intro ds hds
      exact absurd (hrest '+' (by rw [hds]; rfl)) (by decide)
    · intro ds hds
      exact absurd (hrest '-' (by rw [hds]; rfl)) (by decide)
  cases cs with
  | nil =>
    cases rest with
    | nil => rfl
    | cons c cs =>
      have hc : ¬ (c = 'e' ∨ c = 'E') := by
        have := hrest c rfl
        simp only [endsNumber, Bool.and_eq_true, decide_eq_true_eq] at this
        tauto
      simp [spanExp, hc]
  | cons c cs =>
    rw [List.cons_append, spanExp, spanExp]
    by_cases hc : c = 'e' ∨ c = 'E'
    · rw [if_pos hc, if_pos hc]
      have happ : spanSign (cs ++ rest) = ((spanSign cs).1, (spanSign cs).2 ++ rest) := by
        cases cs with
        | nil => exact hsign
        | cons d ds =>
          by_cases hplus : d = '+'
          · subst hplus
            rfl
          by_cases hminus : d = '-'
          · subst hminus
            rfl
          have hother : ∀ es, spanSign (d :: es) = ([], d :: es) := by
            intro es
            rw [spanSign] <;> simpa
          rw [List.cons_append, hother, hother]
          rfl
      rw [happ, spanDigits_append hrest]
      rcases spanDigits (spanSign cs).2 with ⟨_ | ⟨d, ds⟩, r⟩ <;> rfl
    · rw [if_neg hc, if_neg hc]
      rfl

end

/-! The pieces of a literal, put together again. -/

theorem spanDigits_join (cs : List Char) : (spanDigits cs).1 ++ (spanDigits cs).2 = cs := by
  rw [spanDigits, List.span_eq_takeWhile_dropWhile]
  exact List.takeWhile_append_dropWhile

theorem spanInt_join (cs : List Char) : (spanInt cs).1 ++ (spanInt cs).2 = cs := by
  rw [spanInt.eq_def]
  split
  · rfl
  · exact spanDigits_join cs

theorem spanFrac_join (cs : List Char) : (spanFrac cs).1 ++ (spanFrac cs).2 = cs := by
  rw [spanFrac.eq_def]
  split
  · next cs =>
    have hjoin := spanDigits_join cs
    rcases hspan : spanDigits cs with ⟨_ | ⟨d, ds⟩, r⟩
    · rfl
    · rw [hspan] at hjoin
      exact congrArg ('.' :: ·) hjoin
  · rfl

theorem spanSign_join (cs : List Char) : (spanSign cs).1 ++ (spanSign cs).2 = cs := by
  rw [spanSign.eq_def]
  split <;> rfl

theorem spanExp_join (cs : List Char) : (spanExp cs).1 ++ (spanExp cs).2 = cs := by
  rw [spanExp.eq_def]
  split
  · next c cs =>
    split
    · have hjoin := spanDigits_join (spanSign cs).2
      have hsign := spanSign_join cs
      rcases hspan : spanDigits (spanSign cs).2 with ⟨_ | ⟨d, ds⟩, r⟩
      · rfl
      · rw [hspan] at hjoin
        dsimp only at hjoin ⊢
        rw [List.cons_append, List.cons_append, List.append_assoc, hjoin, hsign]
    · rfl
  · rfl

/-- A literal with a fraction or an exponent reads as a float. -/
theorem scanNumber_float (neg : Bool) {body rest : List Char} (hbody : isFloatBody body = true)
    (hrest : Delimited rest)
    (h : isFloatText ((if neg then ['-'] else []) ++ body) = true) :
    scanNumber neg (body ++ rest) =
      .ok (.float ⟨(if neg then ['-'] else []) ++ body, h⟩, rest) := by
  have hi := spanInt_join body
  have hf := spanFrac_join (spanInt body).2
  have he := spanExp_join (spanFrac (spanInt body).2).2
  simp only [isFloatBody, ne_eq, Bool.and_eq_true, Bool.or_eq_true, decide_eq_true_eq] at hbody
  obtain ⟨⟨hds, hparts⟩, hend⟩ := hbody
  have hne : body ≠ [] := by
    rintro rfl
    exact hds rfl
  have htext : (spanInt body).1 ++ (spanFrac (spanInt body).2).1 ++
      (spanExp (spanFrac (spanInt body).2).2).1 = body := by
    rw [hend, List.append_nil] at he
    rw [he, List.append_assoc, hf, hi]
  have hwhole : ¬((spanFrac (spanInt body).2).1 = [] ∧
      (spanExp (spanFrac (spanInt body).2).2).1 = []) := by tauto
  rw [scanNumber]
  simp only [spanInt_append hrest body hne, spanFrac_append hrest, spanExp_append hrest, if_neg hds,
    if_neg hwhole, hend, List.nil_append]
  have hsigned : (if neg then ['-'] else []) ++ (spanInt body).1 ++ (spanFrac (spanInt body).2).1 ++
      (spanExp (spanFrac (spanInt body).2).2).1 = (if neg then ['-'] else []) ++ body := by
    rw [← htext]
    simp only [List.append_assoc, htext]
  simp only [hsigned, dif_pos h]

/-! A number without fraction or exponent. -/

theorem isDigit_of_mem_toDigits {n : ℕ} {c : Char} (h : c ∈ Nat.toDigits 10 n) :
    isDigit c = true := by
  have hc := Nat.isDigit_of_mem_toDigits (by decide) (by decide) h
  simp only [Char.isDigit, Bool.and_eq_true, decide_eq_true_eq, ge_iff_le] at hc
  simp only [isDigit, Bool.and_eq_true, decide_eq_true_eq]
  exact ⟨hc.1, hc.2⟩

theorem toDigits_head {n : ℕ} (hn : 0 < n) : (Nat.toDigits 10 n).head? ≠ some '0' := by
  induction n using Nat.strongRecOn with
  | ind n ih =>
    by_cases hlt : n < 10
    · rw [Nat.toDigits_of_lt_base hlt]
      have hdigit : ∀ d < 10, 0 < d → [Nat.digitChar d].head? ≠ some '0' := by decide
      exact hdigit n hlt hn
    · rw [Nat.toDigits_of_base_le (by decide) (by omega)]
      have hrec := ih (n / 10) (by omega) (by omega)
      have hne : Nat.toDigits 10 (n / 10) ≠ [] := Nat.toDigits_ne_nil
      rcases hdigits : Nat.toDigits 10 (n / 10) with _ | ⟨c, cs⟩
      · exact absurd hdigits hne
      · rw [hdigits] at hrec
        exact hrec

theorem spanInt_toDigits (n : ℕ) : spanInt (Nat.toDigits 10 n) = (Nat.toDigits 10 n, []) := by
  rcases Nat.eq_zero_or_pos n with rfl | hn
  · rfl
  have hhead := toDigits_head hn
  rw [spanInt]
  · rw [spanDigits, List.span_eq_takeWhile_dropWhile, List.takeWhile_eq_self_iff.mpr,
      List.dropWhile_eq_nil_iff.mpr]
    · exact fun c hc => isDigit_of_mem_toDigits hc
    · exact fun c hc => isDigit_of_mem_toDigits hc
  · intro cs hcs
    exact hhead (by rw [hcs]; rfl)

theorem scanNumber_int (neg : Bool) (n : ℕ) {rest : List Char} (hrest : Delimited rest) :
    scanNumber neg (Nat.toDigits 10 n ++ rest) = .ok (.int (if neg then -n else n), rest) := by
  have hfrac : spanFrac rest = ([], rest) := spanFrac_append hrest []
  have hexp : spanExp rest = ([], rest) := spanExp_append hrest []
  rw [scanNumber]
  simp only [spanInt_append hrest _ Nat.toDigits_ne_nil, spanInt_toDigits, List.nil_append, hfrac,
    hexp, Nat.toDigits_ne_nil, if_false, and_self, if_true, Nat.ofDigitChars_ten_toDigits]

/-! ## Strings -/

theorem hexVal?_hexDigit {n : ℕ} (hn : n < 16) : hexVal? (hexDigit n) = some n := by
  have hall : ∀ n < 16, hexVal? (hexDigit n) = some n := by decide
  exact hall n hn

theorem readHex4_hex4 {n : ℕ} (hn : n < 0x10000) (rest : List Char) :
    readHex4 (hex4 n ++ rest) = some (n, rest) := by
  have hsum : n / 4096 % 16 * 4096 + n / 256 % 16 * 256 + n / 16 % 16 * 16 + n % 16 = n := by omega
  have hdigit (m : ℕ) : hexVal? (hexDigit (m % 16)) = some (m % 16) :=
    hexVal?_hexDigit (Nat.mod_lt m (by decide))
  simp [hex4, readHex4, hdigit, hsum]

/-- An escape outside the surrogates reads as its character. -/
theorem readUnicode_unit {n : ℕ} (hn : n < 0x10000) (hs : n < 0xd800 ∨ 0xdfff < n)
    (rest : List Char) : readUnicode (hex4 n ++ rest) = some (Char.ofNat n, rest) := by
  have hhigh : ¬(0xd800 ≤ n ∧ n ≤ 0xdbff) := by omega
  have hlone : ¬(0xd800 ≤ n ∧ n ≤ 0xdfff) := by omega
  rw [readUnicode, readHex4_hex4 hn]
  simp [hhigh, charOfUnit, hlone]

/-- Two escapes that are a surrogate pair read as one character. -/
theorem readUnicode_surrogates {hi lo : ℕ} (hhi : 0xd800 ≤ hi ∧ hi ≤ 0xdbff)
    (hlo : 0xdc00 ≤ lo ∧ lo ≤ 0xdfff) (rest : List Char) :
    readUnicode (hex4 hi ++ (unicodeEscape lo ++ rest)) =
      some (Char.ofNat (0x10000 + (hi - 0xd800) * 0x400 + (lo - 0xdc00)), rest) := by
  have hrest := readHex4_hex4 (n := lo) (by omega) rest
  rw [readUnicode, readHex4_hex4 (by omega)]
  simp only [unicodeEscape, List.cons_append, Option.bind_eq_bind, Option.bind_some, if_pos hhi,
    hrest, if_pos hlo]

theorem readUnicode_pair {n : ℕ} (hlo : 0x10000 ≤ n) (hhi : n < 0x110000) (rest : List Char) :
    readUnicode (hex4 (0xd800 + (n - 0x10000) / 0x400) ++
      (unicodeEscape (0xdc00 + (n - 0x10000) % 0x400) ++ rest)) = some (Char.ofNat n, rest) := by
  have hsum : 0x10000 + (0xd800 + (n - 0x10000) / 0x400 - 0xd800) * 0x400 +
      (0xdc00 + (n - 0x10000) % 0x400 - 0xdc00) = n := by omega
  rw [readUnicode_surrogates (by omega) (by omega), hsum]

/-- One character of a literal is read back, whatever way it was written. -/
theorem scanString_escapeChar (ensureAscii : Bool) (n : ℕ) (c : Char) (rest : List Char) :
    scanString (n + 1) (escapeChar ensureAscii c ++ rest) = (do
      let (ds, rest) ← scanString n rest
      .ok (c :: ds, rest)) := by
  have hescape (cs : List Char) (h : readEscape cs = some (c, rest)) :
      scanString (n + 1) ('\\' :: cs) = (do
        let (ds, rest) ← scanString n rest
        .ok (c :: ds, rest)) := by
    rw [scanString, if_neg (by decide), if_pos rfl]
    simp only [h]
  have hunit (m : ℕ) (cs : List Char) (h : readUnicode (hex4 m ++ cs) = some (c, rest)) :
      scanString (n + 1) (unicodeEscape m ++ cs) = (do
        let (ds, rest) ← scanString n rest
        .ok (c :: ds, rest)) := hescape _ h
  have hvalid : c.toNat < 0xd800 ∨ 0xdfff < c.toNat ∧ c.toNat < 0x110000 := c.valid
  have hc : Char.ofNat c.toNat = c := Char.ofNat_toNat c
  rw [escapeChar]
  split_ifs with hquote hback hnl hcr htab hff hbs hctl hplain hbmp
  · subst hquote; exact hescape _ rfl
  · subst hback; exact hescape _ rfl
  · subst hnl; exact hescape _ rfl
  · subst hcr; exact hescape _ rfl
  · subst htab; exact hescape _ rfl
  · subst hff; exact hescape _ rfl
  · subst hbs; exact hescape _ rfl
  · exact hunit _ _ (by rw [readUnicode_unit (by omega) (by omega), hc])
  · rw [List.singleton_append, scanString, if_neg hquote, if_neg hback, if_neg hctl]
  · exact hunit _ _ (by rw [readUnicode_unit hbmp (by omega), hc])
  · rw [List.append_assoc]
    exact hunit _ _ (by rw [readUnicode_pair (by omega) (by omega), hc])

theorem scanString_flatMap (ensureAscii : Bool) (cs rest : List Char) {n : ℕ} (hn : cs.length < n) :
    scanString n (cs.flatMap (escapeChar ensureAscii) ++ '"' :: rest) = .ok (cs, rest) := by
  induction cs generalizing n with
  | nil =>
    obtain ⟨n, rfl⟩ := Nat.exists_eq_succ_of_ne_zero (by omega : n ≠ 0)
    rw [List.flatMap_nil, List.nil_append, scanString, if_pos rfl]
  | cons c cs ih =>
    obtain ⟨n, rfl⟩ := Nat.exists_eq_succ_of_ne_zero (by omega : n ≠ 0)
    rw [List.length_cons] at hn
    rw [List.flatMap_cons, List.append_assoc, scanString_escapeChar, ih (by omega)]
    rfl

theorem length_le_flatMap_escapeChar (ensureAscii : Bool) (cs : List Char) :
    cs.length ≤ (cs.flatMap (escapeChar ensureAscii)).length := by
  induction cs with
  | nil => simp
  | cons c cs ih =>
    have hpos : 0 < (escapeChar ensureAscii c).length := by
      rw [escapeChar]
      split_ifs <;> simp [unicodeEscape]
    rw [List.flatMap_cons, List.length_append, List.length_cons]
    omega

/-- **A string literal reads as its string.** -/
theorem readString_flatMap (ensureAscii : Bool) (cs rest : List Char) :
    readString (cs.flatMap (escapeChar ensureAscii) ++ '"' :: rest) = .ok (cs, rest) := by
  have hlen := length_le_flatMap_escapeChar ensureAscii cs
  apply scanString_flatMap
  rw [List.length_append, List.length_cons]
  omega

/-! ## Values -/

/-- The separators are those of JSON, with nothing but whitespace after them. -/
structure Format.Readable (f : Format) : Prop where
  itemSep : ∃ sp, f.itemSep = ',' :: sp ∧ ∀ c ∈ sp, isJsonSpace c = true
  keySep : ∃ sp, f.keySep = ':' :: sp ∧ ∀ c ∈ sp, isJsonSpace c = true

/-- The separators that `json.dumps` writes by default. -/
theorem standard_readable : Format.standard.Readable :=
  ⟨⟨[' '], rfl, by simp [isJsonSpace]⟩, ⟨[' '], rfl, by simp [isJsonSpace]⟩⟩

/-- The separators without spaces. -/
theorem compact_readable : Format.compact.Readable :=
  ⟨⟨[], rfl, List.forall_mem_nil _⟩, ⟨[], rfl, List.forall_mem_nil _⟩⟩

theorem skipSpace_append {sp : List Char} (hsp : ∀ c ∈ sp, isJsonSpace c = true) (cs : List Char) :
    skipSpace (sp ++ cs) = skipSpace cs := List.dropWhile_append_of_pos hsp

theorem skipSpace_cons {c : Char} (hc : isJsonSpace c = false) (cs : List Char) :
    skipSpace (c :: cs) = c :: cs := by
  rw [skipSpace, List.dropWhile_cons_of_neg (by simp [hc])]

/-- A character a value may start with. -/
def startsValue (c : Char) : Bool := !isJsonSpace c && c ≠ ']' && c ≠ '}' && c ≠ '\ufeff'

theorem startsValue_of_isDigit {c : Char} (h : isDigit c = true) : startsValue c = true := by
  have hne (d : Char) (hd : isDigit d = false) : c ≠ d := by
    rintro rfl
    rw [h] at hd
    cases hd
  simp [startsValue, isJsonSpace, hne ' ' (by decide), hne '\t' (by decide), hne '\n' (by decide),
    hne '\r' (by decide), hne ']' (by decide), hne '}' (by decide), hne '\ufeff' (by decide)]

theorem isFloatBody_head {cs : List Char} (h : isFloatBody cs = true) :
    ∃ c ds, cs = c :: ds ∧ isDigit c = true := by
  cases cs with
  | nil => cases h
  | cons c cs =>
    refine ⟨c, cs, rfl, ?_⟩
    by_contra hc
    have hzero : c ≠ '0' := by
      rintro rfl
      exact hc rfl
    have hspan : spanInt (c :: cs) = ([], c :: cs) := by
      rw [spanInt, spanDigits, List.span_eq_takeWhile_dropWhile, List.takeWhile_cons_of_neg hc,
        List.dropWhile_cons_of_neg hc]
      simpa using hzero
    simp [isFloatBody, hspan] at h

theorem isFloatText_head {cs : List Char} (h : isFloatText cs = true) :
    ∃ c ds, cs = c :: ds ∧ startsValue c = true := by
  rw [isFloatText.eq_def] at h
  simp only [Bool.or_eq_true, decide_eq_true_eq] at h
  rcases h with ((h | h) | h) | h
  · exact ⟨'N', ['a', 'N'], by simpa using h, by decide⟩
  · exact ⟨'I', _, by simpa using h, by decide⟩
  · exact ⟨'-', _, by simpa using h, by decide⟩
  · split at h
    · exact ⟨'-', _, rfl, by decide⟩
    · obtain ⟨c, ds, rfl, hc⟩ := isFloatBody_head h
      exact ⟨c, ds, rfl, startsValue_of_isDigit hc⟩

theorem intText_head (n : ℤ) : ∃ c ds, intText n = c :: ds ∧ startsValue c = true := by
  rw [intText]
  split_ifs
  · exact ⟨'-', _, rfl, by decide⟩
  · rcases hdigits : Nat.toDigits 10 n.natAbs with _ | ⟨c, cs⟩
    · exact absurd hdigits Nat.toDigits_ne_nil
    · refine ⟨c, cs, rfl, startsValue_of_isDigit (isDigit_of_mem_toDigits (n := n.natAbs) ?_)⟩
      rw [hdigits]
      exact List.mem_cons_self

theorem dumps_head (f : Format) (v : Json) :
    ∃ c cs, dumps f v = c :: cs ∧ startsValue c = true := by
  cases v with
  | null => exact ⟨'n', _, rfl, by decide⟩
  | bool b =>
    cases b with
    | false => exact ⟨'f', _, rfl, by decide⟩
    | true => exact ⟨'t', _, rfl, by decide⟩
  | int n => exact intText_head n
  | float x => exact isFloatText_head x.valid
  | str s => exact ⟨'"', _, rfl, by decide⟩
  | list xs =>
    cases xs with
    | nil => exact ⟨'[', _, rfl, by decide⟩
    | cons x xs => exact ⟨'[', _, rfl, by decide⟩
  | dict kvs =>
    cases kvs with
    | nil => exact ⟨'{', _, rfl, by decide⟩
    | cons e kvs => exact ⟨'{', _, rfl, by decide⟩

/-- Whitespace in front of a value is skipped, and the value does not start as a bracket closes. -/
theorem skipSpace_dumps (f : Format) (v : Json) {sp : List Char}
    (hsp : ∀ c ∈ sp, isJsonSpace c = true) (cs : List Char) :
    skipSpace (sp ++ (dumps f v ++ cs)) = dumps f v ++ cs ∧
      (dumps f v ++ cs).head? ≠ some ']' := by
  obtain ⟨c, ds, hdumps, hc⟩ := dumps_head f v
  simp only [startsValue, Bool.and_eq_true, Bool.not_eq_true', decide_eq_true_eq] at hc
  rw [skipSpace_append hsp, hdumps, List.cons_append, skipSpace_cons hc.1.1.1]
  exact ⟨rfl, by simpa using hc.1.1.2⟩

/-! ### Atoms -/

theorem scanValue_atom {n : ℕ} {c : Char} {cs : List Char}
    (hc : c ≠ '"' ∧ c ≠ '[' ∧ c ≠ '{') : scanValue (n + 1) (c :: cs) = scanAtom (c :: cs) := by
  rw [scanValue, if_neg hc.1, if_neg hc.2.1, if_neg hc.2.2]

theorem scanAtom_digit {c : Char} (hc : isDigit c = true) (cs : List Char) :
    scanAtom (c :: cs) = scanNumber false (c :: cs) := by
  have hne (d : Char) (hd : isDigit d = false) : c ≠ d := by
    rintro rfl
    rw [hc] at hd
    cases hd
  simp only [scanAtom, if_neg (hne 'n' (by decide)), if_neg (hne 't' (by decide)),
    if_neg (hne 'f' (by decide)), if_neg (hne 'N' (by decide)), if_neg (hne 'I' (by decide)),
    if_neg (hne '-' (by decide))]

theorem scanAtom_minus {c : Char} (hc : isDigit c = true) (cs : List Char) :
    scanAtom ('-' :: c :: cs) = scanNumber true (c :: cs) := by
  have hne : c ≠ 'I' := by
    rintro rfl
    cases hc
  rw [scanAtom, if_neg (by decide), if_neg (by decide), if_neg (by decide), if_neg (by decide),
    if_neg (by decide), if_pos rfl]
  intro ds hds
  cases hds
  exact hne rfl

/-- A literal of the grammar in front of any text. -/
theorem scanValue_literal {n : ℕ} {text : List Char} {v : Json} {rest : List Char}
    (hhead : ∃ c cs, text ++ rest = c :: cs ∧ c ≠ '"' ∧ c ≠ '[' ∧ c ≠ '{')
    (hatom : scanAtom (text ++ rest) = scanLiteral text v (text ++ rest)) :
    scanValue (n + 1) (text ++ rest) = .ok (v, rest) := by
  have hscan : scanLiteral text v (text ++ rest) = .ok (v, rest) := by
    rw [scanLiteral, if_pos (List.prefix_append text rest), List.drop_left]
  obtain ⟨c, cs, htext, hc⟩ := hhead
  rw [← hscan, ← hatom, htext, scanValue_atom hc]

theorem ne_of_isDigit {c : Char} (hc : isDigit c = true) : c ≠ '"' ∧ c ≠ '[' ∧ c ≠ '{' := by
  refine ⟨?_, ?_, ?_⟩ <;> rintro rfl <;> cases hc

theorem scanValue_int (n : ℕ) (m : ℤ) {rest : List Char} (hrest : Delimited rest) :
    scanValue (n + 1) (intText m ++ rest) = .ok (.int m, rest) := by
  rcases hdigits : Nat.toDigits 10 m.natAbs with _ | ⟨c, cs⟩
  · exact absurd hdigits Nat.toDigits_ne_nil
  have hc : isDigit c = true := isDigit_of_mem_toDigits (n := m.natAbs) (by simp [hdigits])
  rw [intText]
  split_ifs with hneg
  · have hscan := scanNumber_int true m.natAbs hrest
    rw [hdigits] at hscan ⊢
    rw [List.cons_append, scanValue_atom (by decide), List.cons_append, scanAtom_minus hc]
    rw [List.cons_append] at hscan
    rw [hscan, if_pos rfl]
    congr 3
    omega
  · have hscan := scanNumber_int false m.natAbs hrest
    rw [hdigits] at hscan ⊢
    rw [List.cons_append] at hscan ⊢
    rw [scanValue_atom (ne_of_isDigit hc), scanAtom_digit hc, hscan]
    congr 3
    simp only [Bool.false_eq_true, if_false]
    omega

theorem scanValue_float (n : ℕ) (x : FloatLit) {rest : List Char} (hrest : Delimited rest) :
    scanValue (n + 1) (x.text ++ rest) = .ok (.float x, rest) := by
  obtain ⟨text, valid⟩ := x
  have hvalid := valid
  rw [isFloatText.eq_def] at hvalid
  simp only [Bool.or_eq_true, decide_eq_true_eq] at hvalid
  rcases hvalid with ((rfl | rfl) | rfl) | hbody
  · have htext : "NaN".toList ++ rest = 'N' :: 'a' :: 'N' :: rest := by simp
    apply scanValue_literal ⟨_, _, htext, by decide⟩
    rw [htext, scanAtom, if_neg (by decide), if_neg (by decide), if_neg (by decide), if_pos rfl]
    simp
  · have htext : "Infinity".toList ++ rest = 'I' :: ("nfinity".toList ++ rest) := by simp
    apply scanValue_literal ⟨_, _, htext, by decide⟩
    rw [htext, scanAtom, if_neg (by decide), if_neg (by decide), if_neg (by decide),
      if_neg (by decide), if_pos rfl]
    simp
  · have htext : "-Infinity".toList ++ rest = '-' :: 'I' :: ("nfinity".toList ++ rest) := by simp
    apply scanValue_literal ⟨_, _, htext, by decide⟩
    rw [htext, scanAtom, if_neg (by decide), if_neg (by decide), if_neg (by decide),
      if_neg (by decide), if_neg (by decide), if_pos rfl]
  · revert valid
    split at hbody
    · next body =>
      intro valid
      obtain ⟨c, cs, hbody', hc⟩ := isFloatBody_head hbody
      have hscan := scanNumber_float true hbody hrest valid
      rw [List.cons_append, scanValue_atom (by decide)]
      subst hbody'
      rw [List.cons_append, scanAtom_minus hc]
      exact hscan
    · next body _ =>
      intro valid
      obtain ⟨c, cs, rfl, hc⟩ := isFloatBody_head hbody
      rw [List.cons_append, scanValue_atom (ne_of_isDigit hc), scanAtom_digit hc]
      exact scanNumber_float false hbody hrest valid

/-! ### Containers -/

/-- The text of `v` reads as `v` in front of any text that ends it. -/
def ReadsBack (f : Format) (v : Json) : Prop :=
  ∀ n rest, (dumps f v).length < n → Delimited rest →
    scanValue n (dumps f v ++ rest) = .ok (v, rest)

variable {f : Format}

theorem delimited_dumpsItems (hf : f.Readable) (xs : List Json) (rest : List Char) :
    Delimited (dumpsItems f xs ++ rest) := by
  obtain ⟨sp, hsep, -⟩ := hf.itemSep
  cases xs with
  | nil => exact delimited_cons (by decide) _
  | cons x xs =>
    rw [dumpsItems, hsep]
    exact delimited_cons (by decide) _

theorem delimited_dumpsMembers (hf : f.Readable) (kvs : List (String × Json)) (rest : List Char) :
    Delimited (dumpsMembers f kvs ++ rest) := by
  obtain ⟨sp, hsep, -⟩ := hf.itemSep
  cases kvs with
  | nil => exact delimited_cons (by decide) _
  | cons e kvs =>
    rw [dumpsMembers, hsep]
    exact delimited_cons (by decide) _

/-- The items of an array, up to its closing bracket. -/
theorem scanItems_dumpsItems (hf : f.Readable) {x : Json} {xs : List Json}
    (h : ∀ y ∈ x :: xs, ReadsBack f y) {n : ℕ} (rest : List Char)
    (hn : (dumps f x ++ dumpsItems f xs).length < n) :
    scanItems n (dumps f x ++ (dumpsItems f xs ++ rest)) = .ok (x :: xs, rest) := by
  induction xs generalizing x n with
  | nil =>
    obtain ⟨n, rfl⟩ := Nat.exists_eq_succ_of_ne_zero (by omega : n ≠ 0)
    simp only [dumpsItems, List.length_append, List.length_singleton] at hn
    have hx := h x (by simp) n (']' :: rest) (by omega) (delimited_cons (by decide) _)
    rw [dumpsItems, List.singleton_append, scanItems, hx]
    rfl
  | cons y ys ih =>
    obtain ⟨n, rfl⟩ := Nat.exists_eq_succ_of_ne_zero (by omega : n ≠ 0)
    obtain ⟨sp, hsep, hsp⟩ := hf.itemSep
    simp only [dumpsItems, hsep, List.length_append, List.length_cons] at hn
    have hx := h x (by simp) n (dumpsItems f (y :: ys) ++ rest) (by omega)
      (delimited_dumpsItems hf (y :: ys) rest)
    have hys := ih (x := y) (n := n) (fun z hz => h z (List.mem_cons_of_mem x hz))
      (by rw [List.length_append]; omega)
    have hskip := (skipSpace_dumps f y hsp (dumpsItems f ys ++ rest)).1
    rw [scanItems, hx]
    simp only [dumpsItems, hsep, List.cons_append, List.append_assoc, bind, Except.bind,
      skipSpace_cons (show isJsonSpace ',' = false by decide), hskip, hys]

/-- The members of an object, up to its closing brace. -/
theorem scanMembers_dumpsMembers (hf : f.Readable) {k : String} {v : Json}
    {kvs : List (String × Json)} (h : ∀ e ∈ (k, v) :: kvs, ReadsBack f e.2) {n : ℕ}
    (rest : List Char)
    (hn : (quote f.ensureAscii k.toList ++ f.keySep ++ dumps f v ++ dumpsMembers f kvs).length <
      n) :
    scanMembers n (quote f.ensureAscii k.toList ++
        (f.keySep ++ (dumps f v ++ (dumpsMembers f kvs ++ rest)))) =
      .ok ((k, v) :: kvs, rest) := by
  obtain ⟨ksp, hkey, hksp⟩ := hf.keySep
  induction kvs generalizing k v n with
  | nil =>
    obtain ⟨n, rfl⟩ := Nat.exists_eq_succ_of_ne_zero (by omega : n ≠ 0)
    simp only [dumpsMembers, List.length_append, List.length_singleton] at hn
    have hv := h (k, v) (by simp) n ('}' :: rest) (by simp only; omega)
      (delimited_cons (by decide) _)
    have hskip := (skipSpace_dumps f v hksp ('}' :: rest)).1
    simp only [quote, dumpsMembers, hkey, List.cons_append, List.append_assoc, List.nil_append,
      scanMembers, readString_flatMap, bind, Except.bind,
      skipSpace_cons (show isJsonSpace ':' = false by decide), hskip, hv,
      skipSpace_cons (show isJsonSpace '}' = false by decide), String.ofList_toList]
  | cons e kvs ih =>
    obtain ⟨l, w⟩ := e
    obtain ⟨n, rfl⟩ := Nat.exists_eq_succ_of_ne_zero (by omega : n ≠ 0)
    obtain ⟨sp, hsep, hsp⟩ := hf.itemSep
    simp only [dumpsMembers, hsep, List.length_append, List.length_cons] at hn
    have hv := h (k, v) (by simp) n (dumpsMembers f ((l, w) :: kvs) ++ rest)
      (by simp only; omega) (delimited_dumpsMembers hf ((l, w) :: kvs) rest)
    have hkvs := ih (k := l) (v := w) (n := n) (fun z hz => h z (List.mem_cons_of_mem _ hz))
      (by simp only [List.length_append]; omega)
    have hskip := (skipSpace_dumps f v hksp (dumpsMembers f ((l, w) :: kvs) ++ rest)).1
    have hskip' (cs : List Char) : skipSpace (sp ++ '"' :: cs) = '"' :: cs := by
      rw [skipSpace_append hsp, skipSpace_cons (by decide)]
    simp only [quote, dumpsMembers, hsep, hkey, List.cons_append, List.append_assoc,
      List.nil_append] at hv hskip hkvs
    simp only [quote, dumpsMembers, hsep, hkey, List.cons_append, List.append_assoc,
      List.nil_append, scanMembers, readString_flatMap, bind, Except.bind,
      skipSpace_cons (show isJsonSpace ':' = false by decide), hskip, hv,
      skipSpace_cons (show isJsonSpace ',' = false by decide), hskip', hkvs,
      String.ofList_toList]

theorem dictOfPairs_of_nodup {kvs : List (String × Json)} (h : (Assoc.keys kvs).Nodup) :
    dictOfPairs kvs = kvs := Assoc.update_of_nodup (d := []) h

/-- **A value is read back from its text**, in front of any text that ends it. -/
theorem readsBack (hf : f.Readable) {v : Json} (hv : v.WellFormed) : ReadsBack f v := by
  induction v with
  | null =>
    intro n rest hn hrest
    obtain ⟨n, rfl⟩ := Nat.exists_eq_succ_of_ne_zero (by omega : n ≠ 0)
    have htext : "null".toList ++ rest = 'n' :: ("ull".toList ++ rest) := by simp
    apply scanValue_literal ⟨_, _, htext, by decide⟩
    rw [htext, scanAtom, if_pos rfl]
    simp
  | bool b =>
    intro n rest hn hrest
    obtain ⟨n, rfl⟩ := Nat.exists_eq_succ_of_ne_zero (by omega : n ≠ 0)
    cases b with
    | false =>
      have htext : "false".toList ++ rest = 'f' :: ("alse".toList ++ rest) := by simp
      apply scanValue_literal ⟨_, _, htext, by decide⟩
      rw [htext, scanAtom, if_neg (by decide), if_neg (by decide), if_pos rfl]
      simp
    | true =>
      have htext : "true".toList ++ rest = 't' :: ("rue".toList ++ rest) := by simp
      apply scanValue_literal ⟨_, _, htext, by decide⟩
      rw [htext, scanAtom, if_neg (by decide), if_pos rfl]
      simp
  | int m =>
    intro n rest hn hrest
    obtain ⟨n, rfl⟩ := Nat.exists_eq_succ_of_ne_zero (by omega : n ≠ 0)
    exact scanValue_int n m hrest
  | float x =>
    intro n rest hn hrest
    obtain ⟨n, rfl⟩ := Nat.exists_eq_succ_of_ne_zero (by omega : n ≠ 0)
    exact scanValue_float n x hrest
  | str s =>
    intro n rest hn hrest
    obtain ⟨n, rfl⟩ := Nat.exists_eq_succ_of_ne_zero (by omega : n ≠ 0)
    simp only [dumps, quote, List.cons_append, List.append_assoc, List.nil_append, scanValue,
      readString_flatMap, bind, Except.bind, if_true, String.ofList_toList]
  | list xs ih =>
    intro n rest hn hrest
    obtain ⟨n, rfl⟩ := Nat.exists_eq_succ_of_ne_zero (by omega : n ≠ 0)
    cases hv with
    | list hxs =>
    cases xs with
    | nil =>
      have hspace : skipSpace (']' :: rest) = ']' :: rest := skipSpace_cons (by decide) rest
      have htext : dumps f (.list []) ++ rest = '[' :: ']' :: rest := by simp [dumps]
      rw [htext, scanValue, if_neg (by decide), if_pos rfl, hspace]
      rfl
    | cons x xs =>
      simp only [dumps, List.length_cons] at hn
      obtain ⟨hskip, hhead⟩ := skipSpace_dumps f x (List.forall_mem_nil _) (dumpsItems f xs ++ rest)
      have hitems := scanItems_dumpsItems hf (fun y hy => ih y hy (hxs y hy)) (n := n) rest
        (by omega)
      rw [List.nil_append] at hskip
      simp only [dumps, List.cons_append, List.append_assoc]
      rw [scanValue, if_neg (by decide), if_pos rfl, hskip, if_neg hhead, hitems]
      rfl
  | dict kvs ih =>
    intro n rest hn hrest
    obtain ⟨n, rfl⟩ := Nat.exists_eq_succ_of_ne_zero (by omega : n ≠ 0)
    cases hv with
    | dict hkeys hkvs =>
    cases kvs with
    | nil =>
      have hspace : skipSpace ('}' :: rest) = '}' :: rest := skipSpace_cons (by decide) rest
      have htext : dumps f (.dict []) ++ rest = '{' :: '}' :: rest := by simp [dumps]
      rw [htext, scanValue, if_neg (by decide), if_neg (by decide), if_pos rfl, hspace]
      rfl
    | cons e kvs =>
      obtain ⟨k, v⟩ := e
      simp only [dumps, List.length_cons] at hn
      have hmembers := scanMembers_dumpsMembers hf (fun e he => ih e he (hkvs e he)) (n := n) rest
        (by omega)
      have hskip (cs : List Char) : skipSpace (quote f.ensureAscii k.toList ++ cs) =
          quote f.ensureAscii k.toList ++ cs := skipSpace_cons (by decide) _
      have hhead (cs : List Char) :
          (quote f.ensureAscii k.toList ++ cs).head? ≠ some '}' := by simp [quote]
      simp only [dumps, List.cons_append, List.append_assoc]
      rw [scanValue, if_neg (by decide), if_neg (by decide), if_pos rfl, hskip, if_neg (hhead _),
        hmembers]
      simp only [bind, Except.bind, dictOfPairs_of_nodup hkeys]

/-- **`json.loads(json.dumps(v))` is `v`.** -/
theorem loads_dumps (hf : f.Readable) {v : Json} (hv : v.WellFormed) :
    loads (dumps f v) = .ok v := by
  obtain ⟨c, cs, hdumps, hc⟩ := dumps_head f v
  simp only [startsValue, Bool.and_eq_true, Bool.not_eq_true', decide_eq_true_eq] at hc
  have hread := readsBack hf hv ((dumps f v).length + 1) [] (by omega) delimited_nil
  rw [List.append_nil] at hread
  have hhead : (dumps f v).head? ≠ some '\ufeff' := by simpa [hdumps] using hc.2
  have hskip : skipSpace (dumps f v) = dumps f v := by rw [hdumps, skipSpace_cons hc.1.1.1]
  rw [loads, if_neg hhead, hskip, hread]
  rfl

/-! ## What is read is well formed -/

theorem wellFormed_of_scanLiteral {text : List Char} {v w : Json} (hv : v.WellFormed)
    {cs rest : List Char} (h : scanLiteral text v cs = .ok (w, rest)) : w.WellFormed := by
  rw [scanLiteral] at h
  split_ifs at h
  cases h
  exact hv

theorem wellFormed_of_scanNumber {neg : Bool} {v : Json} {cs rest : List Char}
    (h : scanNumber neg cs = .ok (v, rest)) : v.WellFormed := by
  simp only [scanNumber] at h
  split_ifs at h
  · cases h
    exact .int _
  · cases h
    exact .int _
  all_goals
    cases h
    exact .float _

theorem wellFormed_of_scanAtom {v : Json} {cs rest : List Char}
    (h : scanAtom cs = .ok (v, rest)) : v.WellFormed := by
  rw [scanAtom.eq_def] at h
  split at h
  · cases h
  split_ifs at h
  · exact wellFormed_of_scanLiteral .null h
  · exact wellFormed_of_scanLiteral (.bool _) h
  · exact wellFormed_of_scanLiteral (.bool _) h
  · exact wellFormed_of_scanLiteral (.float _) h
  · exact wellFormed_of_scanLiteral (.float _) h
  · split at h
    · exact wellFormed_of_scanLiteral (.float _) h
    · exact wellFormed_of_scanNumber h
  · exact wellFormed_of_scanNumber h

theorem wellFormed_dictOfPairs {kvs : List (String × Json)} (h : ∀ e ∈ kvs, e.2.WellFormed) :
    (Json.dict (dictOfPairs kvs)).WellFormed :=
  .dict (Assoc.nodup_keys_update (d := []) List.nodup_nil kvs)
    (Assoc.forall_mem_update (d := []) (by simp) h)

theorem wellFormed_of_scan (n : ℕ) :
    (∀ cs v rest, scanValue n cs = .ok (v, rest) → v.WellFormed) ∧
      (∀ cs xs rest, scanItems n cs = .ok (xs, rest) → ∀ x ∈ xs, x.WellFormed) ∧
      ∀ cs kvs rest, scanMembers n cs = .ok (kvs, rest) → ∀ e ∈ kvs, e.2.WellFormed := by
  induction n with
  | zero =>
    refine ⟨?_, ?_, ?_⟩
    · intro cs v rest h
      rw [scanValue] at h
      cases h
    · intro cs xs rest h
      rw [scanItems] at h
      cases h
    · intro cs kvs rest h
      rw [scanMembers] at h
      cases h
  | succ n ih =>
    obtain ⟨ihValue, ihItems, ihMembers⟩ := ih
    refine ⟨?_, ?_, ?_⟩
    · intro cs v rest h
      cases cs with
      | nil =>
        rw [scanValue] at h
        cases h
      | cons c cs =>
        rw [scanValue] at h
        split_ifs at h
        · obtain ⟨⟨s, r⟩, -, h⟩ := bind_eq_ok.mp h
          cases h
          exact .str _
        · cases h
          exact .list (by simp)
        · obtain ⟨⟨xs, r⟩, hxs, h⟩ := bind_eq_ok.mp h
          cases h
          exact .list (ihItems _ _ _ hxs)
        · cases h
          exact .dict List.nodup_nil (by simp)
        · obtain ⟨⟨kvs, r⟩, hkvs, h⟩ := bind_eq_ok.mp h
          cases h
          exact wellFormed_dictOfPairs (ihMembers _ _ _ hkvs)
        · exact wellFormed_of_scanAtom h
    · intro cs xs rest h
      rw [scanItems] at h
      obtain ⟨⟨x, r⟩, hx, h⟩ := bind_eq_ok.mp h
      have hwf := ihValue _ _ _ hx
      dsimp only at h
      split at h
      · obtain ⟨⟨ys, r'⟩, hys, h⟩ := bind_eq_ok.mp h
        cases h
        exact List.forall_mem_cons.mpr ⟨hwf, ihItems _ _ _ hys⟩
      · cases h
        exact List.forall_mem_singleton.mpr hwf
      · cases h
    · intro cs kvs rest h
      by_cases hquote : ∃ ds, cs = '"' :: ds
      · obtain ⟨ds, rfl⟩ := hquote
        rw [scanMembers] at h
        obtain ⟨⟨k, r⟩, -, h⟩ := bind_eq_ok.mp h
        dsimp only at h
        split at h
        · obtain ⟨⟨v, r'⟩, hv, h⟩ := bind_eq_ok.mp h
          have hwf := ihValue _ _ _ hv
          dsimp only at h
          split at h
          · obtain ⟨⟨ys, r''⟩, hys, h⟩ := bind_eq_ok.mp h
            cases h
            exact List.forall_mem_cons.mpr ⟨hwf, ihMembers _ _ _ hys⟩
          · cases h
            exact List.forall_mem_singleton.mpr hwf
          · cases h
        · cases h
      · rw [scanMembers] at h
        · cases h
        · intro ds hds
          exact hquote ⟨ds, hds⟩

/-- **What `json.loads` returns has no key twice in an object.** -/
theorem wellFormed_of_loads {cs : List Char} {v : Json} (h : loads cs = .ok v) : v.WellFormed := by
  rw [loads] at h
  split_ifs at h
  obtain ⟨⟨w, rest⟩, hw, h⟩ := bind_eq_ok.mp h
  dsimp only at h
  split_ifs at h
  cases h
  exact (wellFormed_of_scan _).1 _ _ _ hw

/-! ## Floats keep their shortest literal

`json.loads` makes a number of a float literal, and `json.dumps` prints that number by `repr`. -/

/-- `repr` of a float, on the literals that denote floats. -/
structure FloatRepr where
  /-- The literal that the float of a literal is printed as. -/
  repr : FloatLit → FloatLit
  /-- What is printed reads as the same float. -/
  repr_repr : ∀ x, repr (repr x) = repr x

/-- Every literal is already the one its float is printed as. -/
def exactRepr : FloatRepr := ⟨id, fun _ => rfl⟩

mutual

/-- The value with every float as `repr` prints it. -/
def FloatRepr.value (fr : FloatRepr) : Json → Json
  | .float x => .float (fr.repr x)
  | .list xs => .list (fr.values xs)
  | .dict kvs => .dict (fr.entries kvs)
  | .null => .null
  | .bool b => .bool b
  | .int n => .int n
  | .str s => .str s

/-- The items of a list. -/
def FloatRepr.values (fr : FloatRepr) : List Json → List Json
  | [] => []
  | x :: xs => fr.value x :: fr.values xs

/-- The entries of a dictionary. -/
def FloatRepr.entries (fr : FloatRepr) : List (String × Json) → List (String × Json)
  | [] => []
  | (k, v) :: kvs => (k, fr.value v) :: fr.entries kvs

end

variable {fr : FloatRepr}

theorem FloatRepr.values_eq_map (xs : List Json) : fr.values xs = xs.map fr.value := by
  induction xs with
  | nil => rfl
  | cons x xs ih => rw [FloatRepr.values, ih, List.map_cons]

theorem FloatRepr.entries_eq_map (kvs : List (String × Json)) :
    fr.entries kvs = kvs.map fun e => (e.1, fr.value e.2) := by
  induction kvs with
  | nil => rfl
  | cons e kvs ih => rw [FloatRepr.entries, ih, List.map_cons]

/-- The value is one whose floats are as `repr` prints them. -/
def FloatRepr.Printed (fr : FloatRepr) (v : Json) : Prop := fr.value v = v

theorem FloatRepr.printed_list {xs : List Json} :
    fr.Printed (.list xs) ↔ ∀ x ∈ xs, fr.Printed x := by
  have hmap : xs.map fr.value = xs.map id ↔ ∀ x ∈ xs, fr.value x = id x := List.map_inj_left
  rw [List.map_id] at hmap
  rw [FloatRepr.Printed, FloatRepr.value, FloatRepr.values_eq_map, Json.list.injEq, hmap]
  rfl

theorem FloatRepr.printed_dict {kvs : List (String × Json)} :
    fr.Printed (.dict kvs) ↔ ∀ e ∈ kvs, fr.Printed e.2 := by
  have hmap : (kvs.map fun e => (e.1, fr.value e.2)) = kvs.map id ↔
      ∀ e ∈ kvs, (e.1, fr.value e.2) = id e := List.map_inj_left
  rw [List.map_id] at hmap
  rw [FloatRepr.Printed, FloatRepr.value, FloatRepr.entries_eq_map, Json.dict.injEq, hmap]
  simp [FloatRepr.Printed, Prod.ext_iff]

theorem FloatRepr.printed_value (v : Json) : fr.Printed (fr.value v) := by
  induction v with
  | null => rfl
  | bool b => rfl
  | int n => rfl
  | float x => exact congrArg Json.float (fr.repr_repr x)
  | str s => rfl
  | list xs ih =>
    rw [FloatRepr.value, FloatRepr.values_eq_map, FloatRepr.printed_list]
    simpa using ih
  | dict kvs ih =>
    rw [FloatRepr.value, FloatRepr.entries_eq_map, FloatRepr.printed_dict, List.forall_mem_map]
    exact ih

theorem FloatRepr.wellFormed_value {v : Json} (h : v.WellFormed) : (fr.value v).WellFormed := by
  induction h with
  | null => exact .null
  | bool b => exact .bool b
  | int n => exact .int n
  | float x => exact .float _
  | str s => exact .str s
  | list h ih =>
    rw [FloatRepr.value, FloatRepr.values_eq_map]
    exact .list (by simpa using ih)
  | dict hkeys h ih =>
    rw [FloatRepr.value, FloatRepr.entries_eq_map]
    refine .dict ?_ (List.forall_mem_map.mpr ih)
    simpa [Assoc.keys, Function.comp_def] using hkeys

/-- `json.loads(text)`, with every float as `repr` prints it. -/
def FloatRepr.loads (fr : FloatRepr) (cs : List Char) : Except PyErr Json :=
  fr.value <$> Python.loads cs

/-- What `FloatRepr.loads` returns: no object has a key twice, and floats are as `repr` prints
them. -/
structure FloatRepr.Canonical (fr : FloatRepr) (v : Json) : Prop where
  wellFormed : v.WellFormed
  printed : fr.Printed v

theorem FloatRepr.canonical_of_loads {cs : List Char} {v : Json} (h : fr.loads cs = .ok v) :
    fr.Canonical v := by
  obtain ⟨w, hw, rfl⟩ := map_eq_ok.mp h
  exact ⟨fr.wellFormed_value (wellFormed_of_loads hw), fr.printed_value w⟩

/-- **What is written is read back**, floats included. -/
theorem FloatRepr.loads_dumps (hf : f.Readable) {v : Json} (hv : fr.Canonical v) :
    fr.loads (dumps f v) = .ok v := by
  rw [FloatRepr.loads, Python.loads_dumps hf hv.wellFormed]
  exact congrArg Except.ok hv.printed

/-- Values with one text are one value. -/
theorem FloatRepr.dumps_inj (hf : f.Readable) {v w : Json} (hv : fr.Canonical v)
    (hw : fr.Canonical w) (h : dumps f v = dumps f w) : v = w := by
  have hload := FloatRepr.loads_dumps hf hv
  rw [h, FloatRepr.loads_dumps hf hw] at hload
  exact (Except.ok.inj hload).symm

theorem FloatRepr.canonical_list {xs : List Json} :
    fr.Canonical (.list xs) ↔ ∀ x ∈ xs, fr.Canonical x := by
  constructor
  · rintro ⟨hwf, hp⟩ x hx
    cases hwf with
    | list hwf => exact ⟨hwf x hx, FloatRepr.printed_list.mp hp x hx⟩
  · intro h
    exact ⟨.list fun x hx => (h x hx).wellFormed,
      FloatRepr.printed_list.mpr fun x hx => (h x hx).printed⟩

theorem FloatRepr.canonical_dict {kvs : List (String × Json)} :
    fr.Canonical (.dict kvs) ↔ (Assoc.keys kvs).Nodup ∧ ∀ e ∈ kvs, fr.Canonical e.2 := by
  constructor
  · rintro ⟨hwf, hp⟩
    cases hwf with
    | dict hkeys hwf =>
      exact ⟨hkeys, fun e he => ⟨hwf e he, FloatRepr.printed_dict.mp hp e he⟩⟩
  · rintro ⟨hkeys, h⟩
    exact ⟨.dict hkeys fun e he => (h e he).wellFormed,
      FloatRepr.printed_dict.mpr fun e he => (h e he).printed⟩

theorem FloatRepr.Canonical.get? {kvs : List (String × Json)} (h : fr.Canonical (.dict kvs))
    {k : String} {v : Json} (hv : Assoc.get? kvs k = some v) : fr.Canonical v :=
  (FloatRepr.canonical_dict.mp h).2 (k, v) (Assoc.mem_of_get? hv)

theorem FloatRepr.Canonical.set {kvs : List (String × Json)} (h : fr.Canonical (.dict kvs))
    (k : String) {v : Json} (hv : fr.Canonical v) : fr.Canonical (.dict (Assoc.set kvs k v)) := by
  obtain ⟨hkeys, hvalues⟩ := FloatRepr.canonical_dict.mp h
  exact FloatRepr.canonical_dict.mpr
    ⟨Assoc.nodup_keys_set hkeys k v, Assoc.forall_mem_set hvalues hv⟩

theorem FloatRepr.canonical_str (s : String) : fr.Canonical (.str s) := ⟨.str s, rfl⟩

theorem FloatRepr.canonical_int (n : ℤ) : fr.Canonical (.int n) := ⟨.int n, rfl⟩

theorem FloatRepr.canonical_bool (b : Bool) : fr.Canonical (.bool b) := ⟨.bool b, rfl⟩

end Python
