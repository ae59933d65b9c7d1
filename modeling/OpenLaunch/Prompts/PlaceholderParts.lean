import OpenLaunch.Prompts.Placeholders

/-! # What placeholders select

A placeholder with a length selects at most as many characters or messages: from the start, from the
end, or from both ends without an overlap. Slices from the end of a length of zero break this, and
what the placeholders do about them differs: the text of a message is cut right for every length, a
prompt is cut in the middle right from two on, and messages from one on. -/

namespace OpenLaunch.Prompts

open Python

/-- The placeholders among pieces. -/
def holes {ι : Type} : List (Piece Char ι) → List ι
  | [] => []
  | .lit _ :: pieces => holes pieces
  | .hole i :: pieces => i :: holes pieces

/-! ## The prompt -/

/-- What replaces a placeholder with a length is selected from the prompt. -/
def PromptSelects (prompt : List Char) : Variant → Prop
  | .bare => True
  | .cut part n => Selects ellipsis n part prompt (promptReplacement prompt (.cut part n))

/-- The length is none that a slice from the end takes for everything. -/
def PromptFits (prompt : List Char) : Variant → Prop
  | .bare | .cut .start _ => True
  | .cut .end n => n ≠ 0 ∨ prompt = []
  | .cut .middletruncate n => 2 ≤ n ∨ prompt.length ≤ n

theorem promptSelects_iff (prompt : List Char) (v : Variant) :
    PromptSelects prompt v ↔ PromptFits prompt v := by
  cases v with
  | bare => exact Iff.rfl
  | cut part n =>
    cases part with
    | start => exact iff_of_true (@selects_start Char ellipsis n prompt) trivial
    | «end» => exact @selects_end_iff Char ellipsis prompt n
    | middletruncate =>
      simp only [PromptSelects, PromptFits, promptReplacement]
      split
      · next hshort => exact iff_of_true (selects_whole hshort) (.inr hshort)
      · next hlong =>
        have hhalves : (n + 1) / 2 + n / 2 = n := by omega
        rw [selects_halves_iff (Nat.lt_of_not_le hlong) hhalves]
        omega

/-! ## Filters of contents -/

/-- The text of a message is cut right for every length: of zero, it is empty. -/
theorem selects_truncate_content (content : List Char) (n : ℕ) (part : Part) :
    Selects ellipsis n part content (truncate_content content n part) := by
  unfold truncate_content
  split
  · -- Nothing is a prefix and a suffix.
    cases part with
    | start => exact ⟨List.nil_prefix, Nat.zero_le n⟩
    | «end» => exact ⟨List.nil_suffix, Nat.zero_le n⟩
    | middletruncate => exact .inl ⟨List.nil_prefix, Nat.zero_le n⟩
  · next hn =>
    split
    · next hshort =>
      cases part with
      | start => exact ⟨List.prefix_refl content, hshort⟩
      | «end» => exact ⟨List.suffix_refl content, hshort⟩
      | middletruncate => exact selects_whole hshort
    · next hlong =>
      cases part with
      | start => exact selects_start n content
      | «end» => exact selects_end_iff.mpr (.inl hn)
      | middletruncate =>
        have hhalves : n / 2 + (n - n / 2) = n := by omega
        exact (selects_halves_iff (Nat.lt_of_not_le hlong) hhalves).mpr (by omega)

/-- An item whose text is cut, or one without a text. -/
def ItemCut (n : ℕ) (part : Part) (item item' : Json) : Prop :=
  match item with
  | .dict kvs =>
    if Assoc.get? kvs "type" = some (.str "text") then
      ∃ kvs', item' = .dict kvs' ∧ (∀ k, k ≠ "text" → Assoc.get? kvs' k = Assoc.get? kvs k) ∧
        ∀ s, (Assoc.get? kvs "text").getD (.str "") = .str s →
          ∃ t, Assoc.get? kvs' "text" = some (.str t) ∧ Selects ellipsis n part s.toList t.toList
    else item' = item
  | _ => item' = item

/-- A message whose content is cut. -/
structure MessageCut (n : ℕ) (part : Part) (msg msg' : List (String × Json)) : Prop where
  others : ∀ k, k ≠ "content" → Assoc.get? msg' k = Assoc.get? msg k
  content : match Assoc.get? msg "content" with
    | some (.str s) => ∃ t, Assoc.get? msg' "content" = some (.str t) ∧
        Selects ellipsis n part s.toList t.toList
    | some (.list items) => ∃ items', Assoc.get? msg' "content" = some (.list items') ∧
        List.Forall₂ (ItemCut n part) items items'
    | other => Assoc.get? msg' "content" = other

/-- The text of an item is a string or absent. -/
def TextTyped (item : Json) : Prop :=
  ∃ s, (Assoc.get? item.entries "text").getD (.str "") = .str s

/-- The texts of the items of a message are strings. -/
def TextsTyped (msg : List (String × Json)) : Prop :=
  ∀ items, Assoc.get? msg "content" = some (.list items) → ∀ item ∈ items, TextTyped item

section Filters

variable {conv : Conversions} {n : ℕ} {part : Part}

/-- A text that is a string is truncated as such. -/
theorem truncateValue_str (s : String) : truncateValue conv n part (.str s) =
    .ok (.str (String.ofList (truncate_content s.toList n part))) := by
  unfold truncateValue truncate_content
  split
  · rfl
  · split
    · next hfalsy =>
      have hs : s = "" := by simpa [Json.truthy] using hfalsy
      subst hs
      rw [if_pos (by simp)]
      rfl
    · rfl

theorem itemCut_of_truncateItem {item item' : Json}
    (h : truncateItem conv n part item = .ok item') : ItemCut n part item item' := by
  cases item with
  | dict kvs =>
    simp only [truncateItem] at h
    simp only [ItemCut]
    split
    · next htext =>
      rw [if_pos htext] at h
      obtain ⟨text, htruncate, hitem⟩ := bind_eq_ok.mp h
      cases hitem
      refine ⟨_, rfl, fun k hk => Assoc.get?_set_ne kvs hk text, fun s hs => ?_⟩
      rw [hs, truncateValue_str] at htruncate
      cases htruncate
      refine ⟨_, Assoc.get?_set_self kvs "text" _, ?_⟩
      rw [String.toList_ofList]
      exact selects_truncate_content s.toList n part
    · next htext =>
      rw [if_neg htext] at h
      cases h
      rfl
  | _ =>
    cases h
    rfl

theorem exists_truncateItem {item : Json} (h : TextTyped item) :
    ∃ item', truncateItem conv n part item = .ok item' := by
  cases item with
  | dict kvs =>
    obtain ⟨s, hs⟩ := h
    simp only [truncateItem]
    split
    · rw [show (Assoc.get? kvs "text").getD (.str "") = .str s from hs, truncateValue_str]
      exact ⟨_, rfl⟩
    · exact ⟨_, rfl⟩
  | _ => exact ⟨_, rfl⟩

theorem messageCut_of_truncateMessage {msg msg' : List (String × Json)}
    (h : truncateMessage conv n part msg = .ok msg') : MessageCut n part msg msg' := by
  unfold truncateMessage at h
  split at h
  · next s hs =>
    cases h
    refine ⟨fun k hk => Assoc.get?_set_ne msg hk _, ?_⟩
    rw [hs]
    refine ⟨_, Assoc.get?_set_self msg "content" _, ?_⟩
    rw [String.toList_ofList]
    exact selects_truncate_content s.toList n part
  · next items hitems =>
    obtain ⟨items', hmap, hmsg⟩ := bind_eq_ok.mp h
    cases hmsg
    refine ⟨fun k hk => Assoc.get?_set_ne msg hk _, ?_⟩
    rw [hitems]
    exact ⟨items', Assoc.get?_set_self msg "content" _,
      (forall₂_of_mapM hmap).imp fun _ _ => itemCut_of_truncateItem⟩
  · next hstr hlist =>
    cases h
    refine ⟨fun _ _ => rfl, ?_⟩
    -- A content of another type is kept.
    split
    · next s hs => exact absurd hs (hstr s)
    · next items hitems => exact absurd hitems (hlist items)
    · rfl

theorem exists_truncateMessage {msg : List (String × Json)} (h : TextsTyped msg) :
    ∃ msg', truncateMessage conv n part msg = .ok msg' := by
  unfold truncateMessage
  split
  · exact ⟨_, rfl⟩
  · next items hitems =>
    obtain ⟨items', hmap⟩ := exists_mapM fun item hitem =>
      @exists_truncateItem conv n part item (h items hitems item hitem)
    rw [hmap]
    exact ⟨_, rfl⟩
  · exact ⟨_, rfl⟩

end Filters

/-- A filter cuts the contents of messages, and raises for no message whose texts are strings. -/
def FilterCuts (unicode : Unicode) (conv : Conversions) (messages : List (List (String × Json)))
    (filter : ContentFilter) : Prop :=
  (∀ filtered, apply_content_filter unicode conv messages filter = .ok filtered →
    match modeOf (unicode.lower filter.mode) with
    | none => filtered = messages
    | some part => List.Forall₂ (MessageCut filter.max_chars part) messages filtered) ∧
  ((∀ msg ∈ messages, TextsTyped msg) →
    ∃ filtered, apply_content_filter unicode conv messages filter = .ok filtered)

theorem filterCuts (unicode : Unicode) (conv : Conversions)
    (messages : List (List (String × Json))) (filter : ContentFilter) :
    FilterCuts unicode conv messages filter := by
  unfold FilterCuts apply_content_filter
  cases modeOf (unicode.lower filter.mode) with
  | none =>
    refine ⟨fun filtered h => ?_, fun _ => ⟨messages, rfl⟩⟩
    cases h
    rfl
  | some part =>
    refine ⟨fun filtered h => ?_, fun htyped => exists_mapM fun msg hmsg => ?_⟩
    · exact (forall₂_of_mapM h).imp fun _ _ => messageCut_of_truncateMessage
    · exact exists_truncateMessage (htyped msg hmsg)

/-! ## The messages -/

/-- The messages that a placeholder with a length selects, and the filter of its contents. -/
def MessagesSelect (unicode : Unicode) (conv : Conversions)
    (messages : List (List (String × Json))) (p : MessagesPlaceholder) : Prop :=
  (match p.variant with
    | .bare => True
    | .cut part n => Selects [] n part messages (selectMessages messages p.variant)) ∧
  ∀ filter, p.content_filter = some filter →
    FilterCuts unicode conv (selectMessages messages p.variant) filter

/-- The length is none that a slice from the end takes for everything. -/
def MessagesFit (messages : List (List (String × Json))) (p : MessagesPlaceholder) : Prop :=
  match p.variant with
  | .bare | .cut .start _ => True
  | .cut .end n | .cut .middletruncate n => n ≠ 0 ∨ messages = []

theorem messagesSelect_iff (unicode : Unicode) (conv : Conversions)
    (messages : List (List (String × Json))) (p : MessagesPlaceholder) :
    MessagesSelect unicode conv messages p ↔ MessagesFit messages p := by
  unfold MessagesSelect MessagesFit
  rw [and_iff_left fun filter _ => filterCuts unicode conv _ filter]
  cases p.variant with
  | bare => exact Iff.rfl
  | cut part n =>
    cases part with
    | start => exact iff_of_true (@selects_start _ [] n messages) trivial
    | «end» => exact @selects_end_iff _ [] messages n
    | middletruncate =>
      simp only [selectMessages]
      split
      · next hshort =>
        refine iff_of_true (selects_whole hshort) ?_
        rw [or_iff_not_imp_left, not_not]
        rintro rfl
        exact List.eq_nil_of_length_eq_zero (Nat.le_zero.mp hshort)
      · next hlong =>
        have hne : messages ≠ [] := by
          rintro rfl
          exact hlong (Nat.zero_le n)
        rw [or_iff_left hne, ← List.append_nil (messages.take (n / 2))]
        split
        · next heven =>
          rw [selects_halves_iff (Nat.lt_of_not_le hlong) (by omega)]
          omega
        · next hodd =>
          rw [selects_halves_iff (Nat.lt_of_not_le hlong) (by omega)]
          omega

/-! ## Templates -/

/-- **What a template selects.** All its placeholders with a length select at most as many
characters or messages, from one end or from both without an overlap, exactly if none of length
zero is for the end of something, none for the middle of the prompt has a length of less than two
where it cuts, and none for the middle of messages has a length of zero. -/
theorem placeholders_select_iff (unicode : Unicode) (conv : Conversions)
    (template variable_name prompt : List Char) (messages : List (List (String × Json))) :
    ((∀ v ∈ holes (promptPieces unicode template), PromptSelects prompt v) ∧
      ∀ p ∈ holes (messagesPieces unicode variable_name template),
        MessagesSelect unicode conv messages p) ↔
    ((∀ v ∈ holes (promptPieces unicode template), PromptFits prompt v) ∧
      ∀ p ∈ holes (messagesPieces unicode variable_name template), MessagesFit messages p) := by
  simp only [promptSelects_iff, messagesSelect_iff]

/-! ## Lengths of zero and one -/

/-- The characters of ASCII. -/
def asciiUnicode : Unicode where
  digit c := if c.isDigit then some (c.toNat - '0'.toNat) else none
  isWord c := c.isAlphanum || c = '_'
  ignoreCase p c := p.toLower = c.toLower
  lower s := s.map Char.toLower
  upper s := s.toUpper

/-- A message with a role only. -/
def bareMessage (role : String) : List (String × Json) := [("role", .str role)]

/-- **Everything instead of nothing**: for the end of the prompt with a length of zero, for both
ends of it with a length of one, and for both ends of the messages with a length of zero. -/
theorem zero_selects_everything :
    (replace_prompt_variable asciiUnicode "\x7b\x7bprompt:end:0\x7d\x7d".toList "hello".toList =
        "hello".toList ∧
      ¬ ∀ v ∈ holes (promptPieces asciiUnicode "\x7b\x7bprompt:end:0\x7d\x7d".toList),
        PromptSelects "hello".toList v) ∧
    (replace_prompt_variable asciiUnicode "\x7b\x7bprompt:middletruncate:1\x7d\x7d".toList
        "hello".toList = "h...hello".toList ∧
      ¬ ∀ v ∈ holes (promptPieces asciiUnicode "\x7b\x7bprompt:middletruncate:1\x7d\x7d".toList),
        PromptSelects "hello".toList v) ∧
    (selectMessages [bareMessage "user"] (.cut .middletruncate 0) = [bareMessage "user"] ∧
      ¬ ∀ p ∈ holes (messagesPieces asciiUnicode "MESSAGES".toList
          "\x7b\x7bMESSAGES:MIDDLETRUNCATE:0\x7d\x7d".toList),
        MessagesSelect asciiUnicode plainConversions [bareMessage "user"] p) := by
  have hend : Variant.cut .end 0 ∈
      holes (promptPieces asciiUnicode "\x7b\x7bprompt:end:0\x7d\x7d".toList) := by decide
  have hmiddle : Variant.cut .middletruncate 1 ∈
      holes (promptPieces asciiUnicode "\x7b\x7bprompt:middletruncate:1\x7d\x7d".toList) := by
    decide
  have hmessages : (⟨.cut .middletruncate 0, none⟩ : MessagesPlaceholder) ∈
      holes (messagesPieces asciiUnicode "MESSAGES".toList
        "\x7b\x7bMESSAGES:MIDDLETRUNCATE:0\x7d\x7d".toList) := by
    decide
  refine ⟨⟨by decide, fun h => ?_⟩, ⟨by decide, fun h => ?_⟩, rfl, fun h => ?_⟩
  · have hfits := (promptSelects_iff _ _).mp (h _ hend)
    exact absurd hfits (by simp [PromptFits])
  · have hfits := (promptSelects_iff _ _).mp (h _ hmiddle)
    exact absurd hfits (by simp [PromptFits])
  · have hfits := (messagesSelect_iff _ _ _ _).mp (h _ hmessages)
    exact absurd hfits (by simp [MessagesFit])

end OpenLaunch.Prompts
