import PageTemplate.Markup.Writer
import PageTemplate.Proofs.Markup.Draft

/-! # Escaped text is text

The characters that markup would take for something else are written as references, in text and
in attribute values. Whatever a text or a value holds, it reads back as it is.
-/

namespace PageTemplate.Markup

open Text

namespace Draft

variable {draft : Draft} {rest : List Char} {c : Char}

theorem event_read_text (hc : Event.isTextChar c) (rest : List Char) :
    Event.read (c :: rest) = .ok (.text (c :: rest.takeWhile Event.isTextChar),
      rest.dropWhile Event.isTextChar) := by
  have hne : c ≠ '<' ∧ c ≠ '&' := by simpa [Event.isTextChar] using hc
  unfold Event.read
  split
  next heq => exact absurd (List.cons.inj heq).1 hne.1
  next heq => exact absurd (List.cons.inj heq).1 hne.1
  next heq => exact absurd (List.cons.inj heq).1 hne.1
  next heq => exact absurd (List.cons.inj heq).1 hne.1
  next heq => exact absurd (List.cons.inj heq).1 hne.2
  next => simp [hc]

/-- It makes no difference where text is cut. -/
theorem read_char (hc : Event.isTextChar c) (rest : List Char) :
    draft.read (c :: rest) = (draft.addText (String.singleton c)).read rest := by
  rw [read_of_read (event_read_text hc rest) (by simp)]
  cases rest with
  | nil => rfl
  | cons c' rest =>
      by_cases hc' : Event.isTextChar c'
      · have hjoin := draft.addText_addText (String.singleton c)
          (String.ofList (c' :: rest.takeWhile Event.isTextChar))
        rw [String.singleton_eq_ofList, ← String.ofList_append] at hjoin
        rw [read_of_read (event_read_text hc' rest) (by simp)]
        simp only [List.takeWhile_cons, List.dropWhile_cons, hc', if_true]
        unfold step
        dsimp only
        rw [String.singleton_eq_ofList, hjoin]
        rfl
      · simp only [List.takeWhile_cons, List.dropWhile_cons, hc', if_false, Bool.false_eq_true]
        rfl

theorem event_read_reference {name : List Char} (hname : ∀ c ∈ name, Event.isReferenceChar c)
    (rest : List Char) :
    Event.read ('&' :: name ++ ';' :: rest) = .ok (.reference name, rest) := by
  have htake : (name ++ ';' :: rest).takeWhile Event.isReferenceChar = name := by
    rw [List.takeWhile_append_of_pos hname]
    simp [Event.isReferenceChar]
  have hdrop : (name ++ ';' :: rest).dropWhile Event.isReferenceChar = ';' :: rest := by
    rw [List.dropWhile_append_of_pos hname]
    simp [Event.isReferenceChar]
  rw [List.cons_append, Event.read, hdrop, htake]
  rfl

theorem read_predefined {name : List Char} (hname : ∀ c ∈ name, Event.isReferenceChar c)
    (hc : resolve? name = some c) (rest : List Char) :
    draft.read ('&' :: name ++ ';' :: rest) = (draft.addText (String.singleton c)).read rest := by
  rw [read_of_read (event_read_reference hname rest) (by simp)]
  unfold step
  dsimp only
  rw [hc]
  rfl

/-- What stands in a text for a character is read as the character. -/
theorem read_escapeTextChar (c : Char) (rest : List Char) :
    draft.read (escapeTextChar c ++ rest) = (draft.addText (String.singleton c)).read rest := by
  unfold escapeTextChar
  split
  · have hlt : resolve? ['l', 't'] = some '<' := by decide
    exact read_predefined (List.all_eq_true.mp (by decide)) hlt rest
  · have hgt : resolve? ['g', 't'] = some '>' := by decide
    exact read_predefined (List.all_eq_true.mp (by decide)) hgt rest
  · have hamp : resolve? ['a', 'm', 'p'] = some '&' := by decide
    exact read_predefined (List.all_eq_true.mp (by decide)) hamp rest
  next hlt _ hamp =>
    have hc : Event.isTextChar c := by simpa [Event.isTextChar] using ⟨hlt, hamp⟩
    exact read_char hc rest

theorem read_flatMap_escapeTextChar (content rest : List Char) :
    draft.read (content.flatMap escapeTextChar ++ rest) =
      (if content = [] then draft else draft.addText (String.ofList content)).read rest := by
  induction content generalizing draft with
  | nil => rfl
  | cons c content ih =>
      rw [List.flatMap_cons, List.append_assoc, read_escapeTextChar, ih,
        if_neg (List.cons_ne_nil c content)]
      cases content with
      | nil => rfl
      | cons c' content =>
          rw [if_neg (List.cons_ne_nil c' content), addText_addText, String.singleton_eq_ofList,
            ← String.ofList_append]
          rfl

/-- A text reads back as it is, and an empty one leaves nothing behind. -/
theorem read_escapeText (content : String) (rest : List Char) :
    draft.read ((escapeText content).toList ++ rest) =
      (if content = "" then draft else draft.addText content).read rest := by
  unfold escapeText
  rw [String.toList_ofList, read_flatMap_escapeTextChar, String.ofList_toList]
  simp

end Draft

/-! ## Attribute values -/

namespace Reference

theorem unescape_nil (offset : Nat) : unescape offset [] = .ok [] := by
  rw [unescape]

theorem unescape_char {c : Char} (hc : c ≠ '&') (offset : Nat) (rest : List Char) :
    unescape offset (c :: rest) = (unescape (offset + c.utf8Size) rest).map (c :: ·) := by
  rw [unescape]
  · cases unescape (offset + c.utf8Size) rest <;> rfl
  · exact hc

theorem unescape_reference {name : List Char} {c : Char} (hname : ∀ c ∈ name, isNameChar c)
    (hc : ∀ offset, resolve offset name = .ok c) (offset : Nat) (rest : List Char) :
    unescape offset ('&' :: name ++ ';' :: rest) =
      (unescape (offset + 1 + byteLength name + 1) rest).map (c :: ·) := by
  have htake : (name ++ ';' :: rest).takeWhile isNameChar = name := by
    rw [List.takeWhile_append_of_pos hname]
    simp [isNameChar]
  have hdrop : (name ++ ';' :: rest).dropWhile isNameChar = ';' :: rest := by
    rw [List.dropWhile_append_of_pos hname]
    simp [isNameChar]
  rw [List.cons_append, unescape]
  split
  next after heq =>
    rw [hdrop] at heq
    obtain rfl := (List.cons.inj heq).2
    rw [htake]
    dsimp only
    rw [hc]
    cases unescape (offset + 1 + byteLength name + 1) rest <;> rfl
  next hne => exact absurd hdrop (hne rest)

theorem unescape_escapeValueChar (c : Char) (offset : Nat) (rest : List Char) :
    ∃ behind,
      unescape offset (escapeValueChar c ++ rest) = (unescape behind rest).map (c :: ·) := by
  unfold escapeValueChar
  split
  · have hresolve : ∀ offset, resolve offset ['a', 'p', 'o', 's'] = .ok '\'' := fun _ => rfl
    exact ⟨_, unescape_reference (List.all_eq_true.mp (by decide)) hresolve offset rest⟩
  · have hresolve : ∀ offset, resolve offset ['q', 'u', 'o', 't'] = .ok '"' := fun _ => rfl
    exact ⟨_, unescape_reference (List.all_eq_true.mp (by decide)) hresolve offset rest⟩
  · unfold escapeTextChar
    split
    · have hresolve : ∀ offset, resolve offset ['l', 't'] = .ok '<' := fun _ => rfl
      exact ⟨_, unescape_reference (List.all_eq_true.mp (by decide)) hresolve offset rest⟩
    · have hresolve : ∀ offset, resolve offset ['g', 't'] = .ok '>' := fun _ => rfl
      exact ⟨_, unescape_reference (List.all_eq_true.mp (by decide)) hresolve offset rest⟩
    · have hresolve : ∀ offset, resolve offset ['a', 'm', 'p'] = .ok '&' := fun _ => rfl
      exact ⟨_, unescape_reference (List.all_eq_true.mp (by decide)) hresolve offset rest⟩
    next hamp => exact ⟨_, unescape_char hamp offset rest⟩

/-- An attribute value reads back as it is. -/
theorem unescape_flatMap_escapeValueChar (value : List Char) (offset : Nat) :
    unescape offset (value.flatMap escapeValueChar) = .ok value := by
  induction value generalizing offset with
  | nil => exact unescape_nil offset
  | cons c value ih =>
      obtain ⟨behind, hbehind⟩ :=
        unescape_escapeValueChar c offset (value.flatMap escapeValueChar)
      rw [List.flatMap_cons, hbehind, ih]
      rfl

end Reference

/-- An escaped value holds no quote that could end it, and nothing that could end a tag. -/
theorem not_mem_escapeValueChar (c : Char) :
    ∀ c' ∈ escapeValueChar c, c' ≠ '"' ∧ c' ≠ '\'' ∧ c' ≠ '<' ∧ c' ≠ '>' := by
  unfold escapeValueChar escapeTextChar
  intro c' hc'
  have hsafe : ∀ written : List Char, c' ∈ written →
      written.all (fun c => c != '"' && c != '\'' && c != '<' && c != '>') = true →
      c' ≠ '"' ∧ c' ≠ '\'' ∧ c' ≠ '<' ∧ c' ≠ '>' := fun written hmem hall => by
    simpa [and_assoc] using List.all_eq_true.mp hall c' hmem
  split at hc'
  · exact hsafe _ hc' (by decide)
  · exact hsafe _ hc' (by decide)
  next hapos hquot =>
    split at hc'
    · exact hsafe _ hc' (by decide)
    · exact hsafe _ hc' (by decide)
    · exact hsafe _ hc' (by decide)
    next hlt hgt _ =>
      obtain rfl := List.mem_singleton.mp hc'
      exact ⟨hquot, hapos, hlt, hgt⟩

end PageTemplate.Markup
