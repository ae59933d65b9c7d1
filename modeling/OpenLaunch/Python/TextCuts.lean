import OpenLaunch.Python.Text

/-! # Text whose bytes arrive in pieces

`bytes.decode('utf-8', errors='replace')` on the pieces of a text, each by itself. The texts of the
pieces make up the text of the whole exactly when no cut falls inside a character, that is, when the
bytes after a cut never go on with a character that the bytes before it leave unfinished. -/

namespace Python

/-! ## The end of a piece -/

/-- What an unfinished character leaves at the end. -/
def endText (onError : OnError) : Option Pending → List Char
  | none => []
  | some _ => onError.text

/-- Decoding from a character begun, to the end of the bytes. -/
def decodeRest (onError : OnError) (p : Option Pending) (bs : List UInt8) : List Char :=
  (decodeFrom onError p bs).1 ++ endText onError (decodeFrom onError p bs).2

variable {onError : OnError} {p : Pending} {b : UInt8} {bs : List UInt8}

theorem decode_eq (onError : OnError) (bs : List UInt8) :
    decode onError bs = decodeRest onError none bs := by
  unfold decode decodeRest
  cases decodeFrom onError none bs with
  | mk cs rest =>
    cases rest with
    | none => exact (List.append_nil cs).symm
    | some p => rfl

/-- Decoding goes on from where it is. -/
theorem decodeFrom_append (q : Option Pending) (bs bs' : List UInt8) :
    decodeFrom onError q (bs ++ bs') =
      ((decodeFrom onError q bs).1 ++ (decodeFrom onError (decodeFrom onError q bs).2 bs').1,
        (decodeFrom onError (decodeFrom onError q bs).2 bs').2) := by
  induction bs generalizing q with
  | nil => rfl
  | cons b bs ih =>
    rw [List.cons_append, decodeFrom, decodeFrom, ih, List.append_assoc]

theorem decodeRest_append (q : Option Pending) (bs bs' : List UInt8) :
    decodeRest onError q (bs ++ bs') = (decodeFrom onError q bs).1 ++
      decodeRest onError (decodeFrom onError q bs).2 bs' := by
  unfold decodeRest
  rw [decodeFrom_append, List.append_assoc]

theorem decodeRest_cons (q : Option Pending) (b : UInt8) (bs : List UInt8) :
    decodeRest onError q (b :: bs) = (decodeByte onError q b).1 ++
      decodeRest onError (decodeByte onError q b).2 bs := by
  unfold decodeRest
  rw [decodeFrom, List.append_assoc]

/-! ## Clean cuts -/

/-- The bytes go on with a character begun. -/
def Pending.GoesOn (p : Pending) (bs : List UInt8) : Prop :=
  ∃ b ∈ bs.head?, p.low ≤ b.toNat ∧ b.toNat ≤ p.high

/-- The character that the bytes leave unfinished. -/
def unfinished (bs : List UInt8) : Option Pending := (decodeFrom .replace none bs).2

/-- **A cut between two pieces that is not inside a character.** -/
def CleanCut (bs bs' : List UInt8) : Prop := ∀ p, unfinished bs = some p → ¬ p.GoesOn bs'

/-- A byte that goes on with a character does not begin one. -/
theorem firstByte_of_goesOn (hlow : p.low ≤ b.toNat) (hhigh : b.toNat ≤ p.high) :
    firstByte onError b = (onError.text, none) := by
  have htail := p.tail
  unfold firstByte
  dsimp only
  rw [if_neg (by omega), if_pos (by omega)]

/-- Bytes that do not go on with a character begun leave an error for it. -/
theorem decodeRest_of_not_goesOn (h : ¬ p.GoesOn bs) :
    decodeRest onError (some p) bs = onError.text ++ decodeRest onError none bs := by
  cases bs with
  | nil => exact (List.append_nil _).symm
  | cons b bs =>
    have hrange : ¬ (p.low ≤ b.toNat ∧ b.toNat ≤ p.high) := fun hrange => h ⟨b, rfl, hrange⟩
    have hbyte : decodeByte onError (some p) b =
        (onError.text ++ (firstByte onError b).1, (firstByte onError b).2) := if_neg hrange
    rw [decodeRest_cons, decodeRest_cons, hbyte, List.append_assoc]
    rfl

/-- What a byte that goes on with a character makes of it. -/
theorem decodeRest_of_goesOn (hlow : p.low ≤ b.toNat) (hhigh : b.toNat ≤ p.high)
    (bs : List UInt8) :
    (∃ c, decodeRest onError (some p) (b :: bs) = c :: decodeRest onError none bs) ∨
      ∃ p', decodeRest onError (some p) (b :: bs) = decodeRest onError (some p') bs := by
  rw [decodeRest_cons, decodeByte, if_pos ⟨hlow, hhigh⟩]
  dsimp only
  split
  · exact .inl ⟨_, rfl⟩
  · exact .inr ⟨_, rfl⟩

/-- A character begun adds at most one to the length of the text. -/
theorem length_decodeRest_le (p : Pending) (bs : List UInt8) :
    (decodeRest .replace (some p) bs).length ≤ (decodeRest .replace none bs).length + 1 := by
  induction bs generalizing p with
  | nil => exact le_rfl
  | cons b bs ih =>
    by_cases hrange : p.low ≤ b.toNat ∧ b.toNat ≤ p.high
    · have hfirst : decodeRest .replace none (b :: bs) = '\ufffd' :: decodeRest .replace none bs := by
        rw [decodeRest_cons, decodeByte, firstByte_of_goesOn hrange.1 hrange.2]
        rfl
      rw [hfirst, List.length_cons]
      rcases decodeRest_of_goesOn hrange.1 hrange.2 bs with ⟨c, hc⟩ | ⟨p', hp'⟩
      · rw [hc, List.length_cons]
        omega
      · rw [hp']
        have hle := ih p'
        omega
    · have hnot : ¬ p.GoesOn (b :: bs) := by
        rintro ⟨b', hb', hrange'⟩
        cases hb'
        exact hrange hrange'
      rw [decodeRest_of_not_goesOn hnot]
      exact le_rfl

/-- A character that goes on is shorter than the errors of its parts. -/
theorem length_decodeRest_lt (h : p.GoesOn bs) :
    (decodeRest .replace (some p) bs).length < (decodeRest .replace none bs).length + 1 := by
  obtain ⟨b, hb, hlow, hhigh⟩ := h
  obtain ⟨bs, rfl⟩ := List.head?_eq_some_iff.mp hb
  have hfirst : decodeRest .replace none (b :: bs) = '\ufffd' :: decodeRest .replace none bs := by
    rw [decodeRest_cons, decodeByte, firstByte_of_goesOn hlow hhigh]
    rfl
  rw [hfirst, List.length_cons]
  rcases decodeRest_of_goesOn hlow hhigh bs with ⟨c, hc⟩ | ⟨p', hp'⟩
  · rw [hc, List.length_cons]
    omega
  · have hle := length_decodeRest_le p' bs
    rw [hp']
    omega

/-- A clean cut keeps the text. -/
theorem CleanCut.decode_append {bs bs' : List UInt8} (h : CleanCut bs bs') :
    decode .replace (bs ++ bs') = decode .replace bs ++ decode .replace bs' := by
  have hleft : decodeRest .replace none bs =
      (decodeFrom .replace none bs).1 ++ endText .replace (unfinished bs) := rfl
  rw [decode_eq, decode_eq, decode_eq, decodeRest_append, hleft, List.append_assoc]
  congr 1
  show decodeRest .replace (unfinished bs) bs' = _
  cases hrest : unfinished bs with
  | none => rfl
  | some p => exact decodeRest_of_not_goesOn (h p hrest)

/-- A cut makes a text no shorter, and one that is not clean makes it longer. -/
theorem length_decode_append (bs bs' : List UInt8) :
    (decode .replace (bs ++ bs')).length ≤
        (decode .replace bs).length + (decode .replace bs').length ∧
      (¬ CleanCut bs bs' → (decode .replace (bs ++ bs')).length <
        (decode .replace bs).length + (decode .replace bs').length) := by
  by_cases hclean : CleanCut bs bs'
  · rw [hclean.decode_append, List.length_append]
    exact ⟨le_rfl, fun h => absurd hclean h⟩
  · suffices hlt : (decode .replace (bs ++ bs')).length <
        (decode .replace bs).length + (decode .replace bs').length by
      exact ⟨hlt.le, fun _ => hlt⟩
    obtain ⟨p, hp, hgoes⟩ : ∃ p, unfinished bs = some p ∧ p.GoesOn bs' := by
      simpa [CleanCut] using hclean
    have hlt := length_decodeRest_lt hgoes
    have hleft : decodeRest .replace none bs =
        (decodeFrom .replace none bs).1 ++ endText .replace (unfinished bs) := rfl
    have hright : decodeRest .replace none (bs ++ bs') =
        (decodeFrom .replace none bs).1 ++ decodeRest .replace (unfinished bs) bs' :=
      decodeRest_append none bs bs'
    have hend : (endText .replace (some p)).length = 1 := rfl
    rw [decode_eq, decode_eq, decode_eq, hleft, hright, hp, List.length_append,
      List.length_append, hend]
    omega

/-- **All cuts are clean.** -/
def CleanCuts : List (List UInt8) → Prop
  | [] => True
  | bs :: pieces => CleanCut bs pieces.flatten ∧ CleanCuts pieces

theorem length_decode_flatten_le (pieces : List (List UInt8)) :
    (decode .replace pieces.flatten).length ≤ (pieces.flatMap (decode .replace)).length := by
  induction pieces with
  | nil => exact le_rfl
  | cons bs pieces ih =>
    have hle := (length_decode_append bs pieces.flatten).1
    rw [List.flatten_cons, List.flatMap_cons, List.length_append]
    omega

/-- **The pieces of a text make up its text exactly when all cuts are clean.** -/
theorem flatMap_decode_iff (pieces : List (List UInt8)) :
    pieces.flatMap (decode .replace) = decode .replace pieces.flatten ↔ CleanCuts pieces := by
  induction pieces with
  | nil => exact ⟨fun _ => trivial, fun _ => rfl⟩
  | cons bs pieces ih =>
    rw [List.flatten_cons, List.flatMap_cons]
    constructor
    · intro h
      have hlength := congrArg List.length h
      rw [List.length_append] at hlength
      obtain ⟨hle, hlt⟩ := length_decode_append bs pieces.flatten
      have hpieces := length_decode_flatten_le pieces
      have hclean : CleanCut bs pieces.flatten := by
        by_contra hnot
        have := hlt hnot
        omega
      rw [hclean.decode_append] at h
      exact ⟨hclean, ih.mp (List.append_cancel_left h)⟩
    · rintro ⟨hclean, hpieces⟩
      rw [hclean.decode_append, ih.mpr hpieces]

/-! ## Encoded text -/

theorem toNat_ofNat_of_lt {n : ℕ} (h : n < 256) : (UInt8.ofNat n).toNat = n := by
  rw [UInt8.toNat_ofNat']
  exact Nat.mod_eq_of_lt h

/-- The last byte of a character. -/
theorem decodeFrom_last {bits x low high : ℕ} {tail : 0x80 ≤ low ∧ high ≤ 0xbf}
    (hlow : low ≤ x + 0x80) (hhigh : x + 0x80 ≤ high) :
    decodeFrom onError (some ⟨bits, 1, low, high, tail⟩) [UInt8.ofNat (x + 0x80)] =
      ([Char.ofNat (bits * 64 + x)], none) := by
  have hbyte : (UInt8.ofNat (x + 0x80)).toNat = x + 0x80 := toNat_ofNat_of_lt (by omega)
  rw [decodeFrom, decodeByte, hbyte, if_pos ⟨hlow, hhigh⟩, Nat.add_sub_cancel]
  rfl

/-- A byte of a character that is not the last one. -/
theorem decodeFrom_next {bits need x low high : ℕ} {tail : 0x80 ≤ low ∧ high ≤ 0xbf}
    (hlow : low ≤ x + 0x80) (hhigh : x + 0x80 ≤ high) (bs : List UInt8) :
    decodeFrom onError (some ⟨bits, need + 2, low, high, tail⟩) (UInt8.ofNat (x + 0x80) :: bs) =
      decodeFrom onError (some ⟨bits * 64 + x, need + 1, 0x80, 0xbf, by decide⟩) bs := by
  have hbyte : (UInt8.ofNat (x + 0x80)).toNat = x + 0x80 := toNat_ofNat_of_lt (by omega)
  rw [decodeFrom, decodeByte, hbyte, if_pos ⟨hlow, hhigh⟩, Nat.add_sub_cancel]
  rfl

/-- The first byte of a character of two bytes. -/
theorem firstByte_two {v : ℕ} (hlow : 0x80 ≤ v) (hhigh : v ≤ 0x7ff) :
    firstByte onError (UInt8.ofNat (v / 64 % 0x20 + 0xc0)) =
      ([], some ⟨v / 64, 1, 0x80, 0xbf, by decide⟩) := by
  have hbyte : (UInt8.ofNat (v / 64 % 0x20 + 0xc0)).toNat = v / 64 + 0xc0 := by
    rw [toNat_ofNat_of_lt (by omega)]
    omega
  unfold firstByte
  simp only [hbyte]
  rw [if_neg (by omega), if_neg (by omega), if_pos (by omega), Nat.add_sub_cancel]

/-- The first byte of a character of three bytes. -/
theorem firstByte_three {v : ℕ} (hlow : 0x800 ≤ v) (hhigh : v ≤ 0xffff)
    (hvalid : v < 0xd800 ∨ 0xdfff < v) :
    ∃ low high tail, firstByte onError (UInt8.ofNat (v / 4096 % 0x10 + 0xe0)) =
        ([], some ⟨v / 4096, 2, low, high, tail⟩) ∧
      low ≤ v / 64 % 0x40 + 0x80 ∧ v / 64 % 0x40 + 0x80 ≤ high := by
  have hbyte : (UInt8.ofNat (v / 4096 % 0x10 + 0xe0)).toNat = v / 4096 + 0xe0 := by
    rw [toNat_ofNat_of_lt (by omega)]
    omega
  unfold firstByte
  simp only [hbyte]
  rw [if_neg (by omega), if_neg (by omega), if_neg (by omega)]
  split
  · rename_i hfirst
    have hzero : v / 4096 = 0 := by omega
    rw [hzero]
    exact ⟨_, _, by decide, rfl, by omega, by omega⟩
  · split
    · rename_i hfirst
      have hd : v / 4096 = 0xd := by omega
      rw [hd]
      exact ⟨_, _, by decide, rfl, by omega, by omega⟩
    · rw [if_pos (by omega), Nat.add_sub_cancel]
      exact ⟨_, _, by decide, rfl, by omega, by omega⟩

/-- The first byte of a character of four bytes. -/
theorem firstByte_four {v : ℕ} (hlow : 0x10000 ≤ v) (hhigh : v < 0x110000) :
    ∃ low high tail, firstByte onError (UInt8.ofNat (v / 262144 % 0x08 + 0xf0)) =
        ([], some ⟨v / 262144, 3, low, high, tail⟩) ∧
      low ≤ v / 4096 % 0x40 + 0x80 ∧ v / 4096 % 0x40 + 0x80 ≤ high := by
  have hbyte : (UInt8.ofNat (v / 262144 % 0x08 + 0xf0)).toNat = v / 262144 + 0xf0 := by
    rw [toNat_ofNat_of_lt (by omega)]
    omega
  unfold firstByte
  simp only [hbyte]
  rw [if_neg (by omega), if_neg (by omega), if_neg (by omega), if_neg (by omega),
    if_neg (by omega), if_neg (by omega)]
  split
  · rename_i hfirst
    have hzero : v / 262144 = 0 := by omega
    rw [hzero]
    exact ⟨_, _, by decide, rfl, by omega, by omega⟩
  · split
    · rw [Nat.add_sub_cancel]
      exact ⟨_, _, by decide, rfl, by omega, by omega⟩
    · rename_i hfirst
      have hfour : v / 262144 = 4 := by omega
      rw [hfour, if_pos rfl]
      exact ⟨_, _, by decide, rfl, by omega, by omega⟩

/-- The bytes of a character are read as that character. -/
theorem decodeFrom_encodeChar (onError : OnError) (c : Char) :
    decodeFrom onError none (String.utf8EncodeChar c) = ([c], none) := by
  have hvalid : c.val.toNat < 0xd800 ∨ 0xdfff < c.val.toNat ∧ c.val.toNat < 0x110000 := c.valid
  have hc : Char.ofNat c.val.toNat = c := Char.ofNat_toNat c
  unfold String.utf8EncodeChar
  dsimp only
  generalize c.val.toNat = v at hvalid hc
  split
  · -- one byte
    rw [decodeFrom, decodeByte, firstByte]
    simp only [toNat_ofNat_of_lt (show v < 256 by omega)]
    rw [if_pos (by omega), hc]
    rfl
  · split
    · rw [decodeFrom, decodeByte, firstByte_two (by omega) (by omega)]
      dsimp only
      have hbits : v / 64 * 64 + v % 0x40 = v := by omega
      rw [decodeFrom_last (by omega) (by omega), hbits, hc]
      rfl
    · split
      · obtain ⟨low, high, tail, hfirst, hlow, hhigh⟩ :=
          @firstByte_three onError v (by omega) (by omega) (by omega)
        rw [decodeFrom, decodeByte, hfirst]
        dsimp only
        have hbits : (v / 4096 * 64 + v / 64 % 0x40) * 64 + v % 0x40 = v := by omega
        rw [decodeFrom_next hlow hhigh, decodeFrom_last (by omega) (by omega), hbits, hc]
        rfl
      · obtain ⟨low, high, tail, hfirst, hlow, hhigh⟩ :=
          @firstByte_four onError v (by omega) (by omega)
        rw [decodeFrom, decodeByte, hfirst]
        dsimp only
        have hbits : ((v / 262144 * 64 + v / 4096 % 0x40) * 64 + v / 64 % 0x40) * 64 +
            v % 0x40 = v := by omega
        rw [decodeFrom_next hlow hhigh, decodeFrom_next (by omega) (by omega),
          decodeFrom_last (by omega) (by omega), hbits, hc]
        rfl

/-- **Text survives the way through bytes.** -/
theorem decodeFrom_encode (onError : OnError) (cs : List Char) :
    decodeFrom onError none (encode cs) = (cs, none) := by
  induction cs with
  | nil => rfl
  | cons c cs ih =>
    rw [encode, List.flatMap_cons, decodeFrom_append, decodeFrom_encodeChar]
    rw [encode] at ih
    rw [ih]
    rfl

/-- **Cuts between characters are clean.** -/
theorem cleanCuts_encode (texts : List (List Char)) : CleanCuts (texts.map encode) := by
  induction texts with
  | nil => trivial
  | cons cs texts ih =>
    refine ⟨fun p hp => ?_, ih⟩
    rw [unfinished, decodeFrom_encode] at hp
    cases hp

end Python
