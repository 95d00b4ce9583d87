import PageTemplate.Proofs.Markup.Draft
import PageTemplate.Proofs.Text.Trimming

/-! # Document types read back

A document type is read with the blanks around its content and kept without them. What remains
still closes at the bracket that follows it, because no blank takes the reader into a quote, a
comment or the internal subset, or out of one.
-/

namespace PageTemplate.Markup.Event

open Text

variable {state : DoctypeState} {s rest after content : List Char} {c : Char}

/-- The reader stands where a bracket closes the document type. -/
def DoctypeState.IsOutside (state : DoctypeState) : Prop :=
  state = .beforeSubset ∨ state = .afterSubset

/-- The reader stands in the internal subset, which only its closing bracket ends. -/
def DoctypeState.isInSubset : DoctypeState → Bool
  | .beforeSubset | .quoted _ | .afterSubset => false
  | _ => true

/-- An open quote is one of the two quotes. -/
def DoctypeState.HasQuote : DoctypeState → Prop
  | .quoted quote => quote = '"' ∨ quote = '\''
  | _ => True

/-- A character that takes the reader nowhere when it stands outside. -/
def isDoctypePlain (c : Char) : Bool :=
  c != '>' && c != '"' && c != '\'' && c != '[' && c != ']'

theorem isDoctypePlain_of_isBlank (h : isBlank c) : isDoctypePlain c := by
  by_contra hplain
  simp only [isDoctypePlain, Bool.and_eq_true, bne_iff_ne, not_and_or, not_not] at hplain
  rcases hplain with (((rfl | rfl) | rfl) | rfl) | rfl <;> revert h <;> decide

theorem next_beforeSubset (h : isDoctypePlain c) (rest : List Char) :
    DoctypeState.beforeSubset.next c rest = some .beforeSubset := by
  simp only [isDoctypePlain, Bool.and_eq_true, bne_iff_ne] at h
  obtain ⟨⟨⟨⟨hbracket, hquote⟩, hapos⟩, hsubset⟩, -⟩ := h
  simp [DoctypeState.next, hbracket, hquote, hapos, hsubset]

theorem cutDoctype_append_plain {front : List Char} (h : ∀ c ∈ front, isDoctypePlain c)
    (s : List Char) :
    cutDoctype .beforeSubset (front ++ s) =
      (cutDoctype .beforeSubset s).map fun (content, after) => (front ++ content, after) := by
  induction front with
  | nil =>
      rw [List.nil_append]
      cases cutDoctype .beforeSubset s <;> rfl
  | cons c front ih =>
      rw [List.cons_append, cutDoctype, next_beforeSubset (h c List.mem_cons_self)]
      dsimp only
      rw [ih fun c hc => h c (List.mem_cons_of_mem _ hc)]
      cases cutDoctype .beforeSubset s <;> rfl

/-- A character closes the document type, or is the first of its content. -/
theorem cutDoctype_cons (h : cutDoctype state (c :: s) = some (content, after)) :
    state.next c s = none ∧ content = [] ∧ after = s ∨
      ∃ state' inner, state.next c s = some state' ∧
        cutDoctype state' s = some (inner, after) ∧ content = c :: inner := by
  unfold cutDoctype at h
  cases hnext : state.next c s with
  | none =>
      rw [hnext] at h
      obtain ⟨rfl, rfl⟩ := Prod.mk.inj (Option.some.inj h)
      exact .inl ⟨rfl, rfl, rfl⟩
  | some state' =>
      rw [hnext] at h
      obtain ⟨⟨inner, after'⟩, hcut, heq⟩ := Option.map_eq_some_iff.mp h
      obtain ⟨rfl, rfl⟩ := Prod.mk.inj heq
      exact .inr ⟨state', inner, rfl, hcut, rfl⟩

theorem cutDoctype_cons_of_next {state' : DoctypeState} (hnext : state.next c s = some state')
    (hcut : cutDoctype state' s = some (content, after)) :
    cutDoctype state (c :: s) = some (c :: content, after) := by
  unfold cutDoctype
  rw [hnext]
  dsimp only
  rw [hcut]
  rfl

/-! ## The internal subset -/

/-- Only its closing bracket leads out of the internal subset. -/
theorem exists_next_of_isInSubset (h : state.isInSubset) (hc : c ≠ ']') (rest : List Char) :
    ∃ state', state.next c rest = some state' ∧ state'.isInSubset := by
  cases state with
  | beforeSubset => cases h
  | quoted => cases h
  | afterSubset => cases h
  | subset =>
      simp only [DoctypeState.next, if_neg hc]
      repeat' split
      all_goals exact ⟨_, rfl, rfl⟩
  | subsetComment written =>
      simp only [DoctypeState.next]
      split <;> exact ⟨_, rfl, rfl⟩
  | subsetInstruction written =>
      simp only [DoctypeState.next]
      split <;> exact ⟨_, rfl, rfl⟩
  | subsetDeclaration quote =>
      cases quote with
      | some quote => exact ⟨_, rfl, rfl⟩
      | none =>
          simp only [DoctypeState.next]
          repeat' split
          all_goals exact ⟨_, rfl, rfl⟩
  | subsetMarkup =>
      refine ⟨_, rfl, ?_⟩
      split <;> rfl

/-- A document type that closes has left the internal subset. -/
theorem mem_of_cutDoctype (h : state.isInSubset)
    (hcut : cutDoctype state s = some (content, after)) : ']' ∈ content := by
  induction s generalizing state content with
  | nil => cases hcut
  | cons c s ih =>
      rcases cutDoctype_cons hcut with ⟨hnone, -, -⟩ | ⟨state', inner, hnext, hrest, rfl⟩
      · obtain rfl := eq_of_next_eq_none hnone
        obtain ⟨state', hnext, -⟩ := exists_next_of_isInSubset (c := '>') h (by decide) s
        cases hnone.symm.trans hnext
      · by_cases hc : c = ']'
        · exact hc ▸ List.mem_cons_self
        · obtain ⟨_, hinner, hsubset⟩ := exists_next_of_isInSubset h hc s
          obtain rfl := Option.some.inj (hnext.symm.trans hinner)
          exact List.mem_cons_of_mem _ (ih hsubset hrest)

/-- What the reader looks for ahead ends before the end of the internal subset. -/
theorem next_append (hmem : ']' ∈ s) (state : DoctypeState) (c : Char) (t t' : List Char) :
    state.next c (s ++ t) = state.next c (s ++ t') := by
  obtain ⟨front, back, rfl⟩ := List.append_of_mem hmem
  rw [List.append_assoc, List.append_assoc, List.cons_append, List.cons_append]
  have hahead : ∀ pattern, ']' ∉ pattern → ∀ before : List Char,
      (strip? pattern (before ++ front ++ ']' :: (back ++ t))).isSome =
        (strip? pattern (before ++ front ++ ']' :: (back ++ t'))).isSome :=
    fun pattern hpattern before =>
      strip?_append_of_not_mem hpattern (before ++ front) (back ++ t) (back ++ t')
  have hcomment := hahead "!--".toList (by decide) []
  have hkeyword : quotedDeclarations.any
      (fun keyword => (strip? keyword (c :: (front ++ ']' :: (back ++ t)))).isSome) =
      quotedDeclarations.any
        fun keyword => (strip? keyword (c :: (front ++ ']' :: (back ++ t')))).isSome := by
    rw [Bool.eq_iff_iff, List.any_eq_true, List.any_eq_true]
    refine exists_congr fun keyword => and_congr_right fun hmem => ?_
    exact Bool.eq_iff_iff.mp (hahead keyword (by revert keyword; decide) [c])
  have hhead : (front ++ ']' :: (back ++ t)).head? = (front ++ ']' :: (back ++ t')).head? := by
    cases front <;> rfl
  cases state with
  | subset =>
      simp only [List.nil_append] at hcomment
      simp only [DoctypeState.next, hcomment, hkeyword, hhead]
  | subsetDeclaration quote => cases quote <;> rfl
  | _ => rfl

/-- Outside the internal subset, and at its end, the reader does not look ahead. -/
theorem next_eq_next (h : ¬ (state.isInSubset ∧ c ≠ ']')) (rest rest' : List Char) :
    state.next c rest = state.next c rest' := by
  cases state with
  | subset =>
      obtain rfl : c = ']' := by
        by_contra hc
        exact h ⟨rfl, hc⟩
      rfl
  | subsetDeclaration quote => cases quote <;> rfl
  | _ => rfl

/-- A plain character leaves the reader outside only when it was outside before. -/
theorem isOutside_of_next {state' : DoctypeState} (hc : isDoctypePlain c) (hquote : state.HasQuote)
    (hnext : state.next c rest = some state') (h : state'.IsOutside) : state.IsOutside := by
  simp only [isDoctypePlain, Bool.and_eq_true, bne_iff_ne] at hc
  by_cases hsubset : state.isInSubset
  · obtain ⟨inner, hinner, hstate'⟩ := exists_next_of_isInSubset hsubset hc.2 rest
    obtain rfl := Option.some.inj (hinner.symm.trans hnext)
    rcases h with rfl | rfl <;> cases hstate'
  · cases state with
    | beforeSubset => exact .inl rfl
    | afterSubset => exact .inr rfl
    | quoted quote =>
        have hne : c ≠ quote := by
          rcases hquote with rfl | rfl
          · exact hc.1.1.1.2
          · exact hc.1.1.2
        simp only [DoctypeState.next, if_neg hne, Option.some.injEq] at hnext
        subst hnext
        rcases h with h | h <;> cases h
    | _ => exact absurd rfl hsubset

theorem hasQuote_of_next {state' : DoctypeState} (h : state.HasQuote)
    (hnext : state.next c rest = some state') : state'.HasQuote := by
  cases state' with
  | quoted quote =>
      unfold DoctypeState.next at hnext
      split at hnext <;> grind [DoctypeState.HasQuote]
  | _ => trivial

/-- A bracket closes the document type where only blanks stand between the two. -/
theorem isOutside_of_cutDoctype (hplain : ∀ c ∈ s, isDoctypePlain c) (hquote : state.HasQuote)
    (hcut : cutDoctype state (s ++ '>' :: after) = some (s, after)) : state.IsOutside := by
  induction s generalizing state with
  | nil =>
      rcases cutDoctype_cons hcut with ⟨hnone, -, -⟩ | ⟨_, _, -, -, heq⟩
      · unfold DoctypeState.next at hnone
        split at hnone <;> grind [DoctypeState.IsOutside]
      · cases heq
  | cons c s ih =>
      have hc := hplain c List.mem_cons_self
      rcases cutDoctype_cons hcut with ⟨-, heq, -⟩ | ⟨state', inner, hnext, hrest, heq⟩
      · cases heq
      · obtain rfl := (List.cons.inj heq).2
        have hstate' := ih (fun c hc => hplain c (List.mem_cons_of_mem _ hc))
          (hasQuote_of_next hquote hnext) hrest
        exact isOutside_of_next hc hquote hnext hstate'

theorem cutDoctype_of_isOutside (h : state.IsOutside) (rest : List Char) :
    cutDoctype state ('>' :: rest) = some ([], rest) := by
  rcases h with rfl | rfl <;> rfl

/-- Without the blanks at its end, a document type closes at the bracket that follows. -/
theorem cutDoctype_append {back : List Char} (hplain : ∀ c ∈ back, isDoctypePlain c)
    (hquote : state.HasQuote)
    (hcut : cutDoctype state (s ++ (back ++ '>' :: after)) = some (s ++ back, after))
    (rest : List Char) : cutDoctype state (s ++ '>' :: rest) = some (s, rest) := by
  induction s generalizing state with
  | nil => exact cutDoctype_of_isOutside (isOutside_of_cutDoctype hplain hquote hcut) rest
  | cons c s ih =>
      rcases cutDoctype_cons hcut with ⟨-, heq, -⟩ | ⟨state', inner, hnext, hrest, heq⟩
      · cases heq
      · obtain rfl := (List.cons.inj heq).2
        -- What follows a character matters in the subset only, and that ends before `back`.
        have hsame : state.next c (s ++ '>' :: rest) = some state' := by
          by_cases hsubset : state.isInSubset ∧ c ≠ ']'
          · obtain ⟨_, hinner, hsubset'⟩ :=
              exists_next_of_isInSubset hsubset.1 hsubset.2 (s ++ (back ++ '>' :: after))
            obtain rfl := Option.some.inj (hnext.symm.trans hinner)
            rcases List.mem_append.mp (mem_of_cutDoctype hsubset' hrest) with hmem | hmem
            · exact (next_append hmem state c _ _).trans hnext
            · exact absurd (hplain _ hmem) (by decide)
          · exact (next_eq_next hsubset _ _).trans hnext
        exact cutDoctype_cons_of_next hsame (ih (hasQuote_of_next hquote hnext) hrest)

/-! ## Reading a written document type -/

theorem isDoctypePlain_of_mem_keyword {keyword : List Char}
    (h : keyword.map Char.toUpper = "DOCTYPE".toList) : ∀ c ∈ keyword, isDoctypePlain c := by
  intro c hc
  have hmem : c.toUpper ∈ "DOCTYPE".toList := h ▸ List.mem_map_of_mem hc
  by_contra hplain
  simp only [isDoctypePlain, Bool.and_eq_true, bne_iff_ne, not_and_or, not_not] at hplain
  rcases hplain with (((rfl | rfl) | rfl) | rfl) | rfl <;> revert hmem <;> decide

/-- A bracket right behind the content of a document type that was read closes it. -/
theorem cutDoctype_of_read {keyword : List Char}
    (h : read s = .ok (.doctype keyword content, after)) :
    cutDoctype .beforeSubset (content ++ '>' :: after) = some (content, after) := by
  obtain ⟨inner, h⟩ := (exists_of_read h).1 rfl
  unfold readMarked at h
  split at h
  · split at h <;> simp at h
  · split at h <;> simp at h
  · split at h
    · split at h
      · contradiction
      next whole _ hcut =>
        simp only [List.splitAt_eq] at h
        split at h
        · contradiction
        next hkeyword =>
          split at h
          · contradiction
          · obtain ⟨hevent, rfl⟩ := Prod.mk.inj (Except.ok.inj h)
            obtain ⟨rfl, rfl⟩ := Event.doctype.inj hevent
            have hplain := isDoctypePlain_of_mem_keyword (not_not.mp hkeyword)
            have hwhole := List.take_append_drop 7 whole
            rw [eq_append_of_cutDoctype hcut, ← hwhole, List.append_assoc,
              cutDoctype_append_plain hplain] at hcut
            obtain ⟨⟨cut, after'⟩, hcut, heq⟩ := Option.map_eq_some_iff.mp hcut
            obtain ⟨happend, rfl⟩ := Prod.mk.inj heq
            obtain rfl := List.append_cancel_left happend
            exact hcut
    · contradiction
  · contradiction

theorem all_isMarkupBlank_cons_trim (h : trim content ≠ []) :
    (' ' :: trim content).all isMarkupBlank = false := by
  obtain ⟨c, rest, hcons⟩ := List.exists_cons_of_ne_nil h
  have hc := not_blank_of_trim_eq_cons hcons
  have hmarkup : isMarkupBlank c = false := by
    cases hblank : isMarkupBlank c with
    | false => rfl
    | true => rw [isBlank_of_isMarkupBlank hblank] at hc; cases hc
  simp [hcons, hmarkup]

/-- A document type that was read reads back from its trimmed content, unless trimming leaves
nothing of it. -/
theorem read_doctype {keyword : List Char} (h : read s = .ok (.doctype keyword content, after))
    (hne : trim content ≠ []) (rest : List Char) :
    read ("<!DOCTYPE ".toList ++ (trim content ++ '>' :: rest)) =
      .ok (.doctype "DOCTYPE".toList (' ' :: trim content), rest) := by
  obtain ⟨front, back, hcontent, hfront, hback⟩ := exists_trim content
  have hcut := cutDoctype_of_read h
  rw [hcontent, List.append_assoc, List.append_assoc,
    cutDoctype_append_plain fun c hc => isDoctypePlain_of_isBlank (hfront c hc)] at hcut
  obtain ⟨⟨cut, after'⟩, hcut, heq⟩ := Option.map_eq_some_iff.mp hcut
  obtain ⟨happend, rfl⟩ := Prod.mk.inj heq
  obtain rfl : cut = trim content ++ back :=
    List.append_cancel_left (happend.trans (List.append_assoc ..))
  have hquote : DoctypeState.beforeSubset.HasQuote := trivial
  have htrimmed := cutDoctype_append (fun c hc => isDoctypePlain_of_isBlank (hback c hc))
    hquote hcut rest
  have hkeyword : ∀ c ∈ "DOCTYPE ".toList, isDoctypePlain c := List.all_eq_true.mp (by decide)
  have hwhole := cutDoctype_append_plain hkeyword (trim content ++ '>' :: rest)
  rw [htrimmed] at hwhole
  have hblank := all_isMarkupBlank_cons_trim hne
  show readMarked ("DOCTYPE ".toList ++ (trim content ++ '>' :: rest)) = _
  have hhead : "DOCTYPE ".toList ++ (trim content ++ '>' :: rest) =
      'D' :: ("OCTYPE ".toList ++ (trim content ++ '>' :: rest)) := rfl
  generalize "DOCTYPE ".toList ++ (trim content ++ '>' :: rest) = s at hwhole hhead ⊢
  unfold readMarked
  split
  next => exact absurd (List.cons.inj hhead).1 (by decide)
  next => exact absurd (List.cons.inj hhead).1 (by decide)
  next c tail _ _ =>
    rw [if_pos (.inl (List.cons.inj hhead).1), hwhole]
    show (if (' ' :: trim content).all isMarkupBlank then _ else _) = _
    rw [hblank]
    rfl
  next => cases hhead

/-- A document type of nothing but blanks does not read back. -/
theorem read_blank_doctype (rest : List Char) :
    read ("<!DOCTYPE ".toList ++ '>' :: rest) = .error .namelessDoctype := by
  rfl

end PageTemplate.Markup.Event
