import Mathlib.Data.List.DropRight
import PageTemplate.Proofs.Text.Cutting
import PageTemplate.Text.Blank

/-! # What trimming leaves

Trimming takes away blanks only, and what it leaves begins and ends with other characters.
-/

namespace PageTemplate.Text

variable {s : List Char} {c : Char}

theorem trimStart_append_of_blank {front : List Char} (h : ∀ c ∈ front, isBlank c)
    (s : List Char) : trimStart (front ++ s) = trimStart s := by
  unfold trimStart
  exact List.dropWhile_append_of_pos h

theorem exists_trimStart (s : List Char) :
    ∃ front, s = front ++ trimStart s ∧ ∀ c ∈ front, isBlank c :=
  ⟨s.takeWhile isBlank, (List.takeWhile_append_dropWhile).symm,
    fun _ hc => List.mem_takeWhile_imp hc⟩

theorem exists_trimEnd (s : List Char) :
    ∃ back, s = trimEnd s ++ back ∧ ∀ c ∈ back, isBlank c := by
  refine ⟨(s.reverse.takeWhile isBlank).reverse, ?_, ?_⟩
  · unfold trimEnd
    rw [← List.reverse_append, List.takeWhile_append_dropWhile, List.reverse_reverse]
  · intro c hc
    exact List.mem_takeWhile_imp (List.mem_reverse.mp hc)

/-- A text is what trimming leaves of it, between blanks. -/
theorem exists_trim (s : List Char) :
    ∃ front back, s = front ++ trim s ++ back ∧ (∀ c ∈ front, isBlank c) ∧
      ∀ c ∈ back, isBlank c := by
  obtain ⟨front, hfront, hblankFront⟩ := exists_trimStart s
  obtain ⟨back, hback, hblankBack⟩ := exists_trimEnd (trimStart s)
  refine ⟨front, back, ?_, hblankFront, hblankBack⟩
  unfold trim
  rw [List.append_assoc, ← hback]
  exact hfront

theorem trim_isInfix (s : List Char) : trim s <:+: s := by
  obtain ⟨front, back, hs, -, -⟩ := exists_trim s
  exact ⟨front, back, hs.symm⟩

theorem trimStart_of_not_blank {rest : List Char} (hc : isBlank c = false) :
    trimStart (c :: rest) = c :: rest := by
  unfold trimStart
  simp [hc]

/-- The first character that trimming leaves is not blank. -/
theorem not_blank_of_trimStart_eq_cons {rest : List Char} (h : trimStart s = c :: rest) :
    isBlank c = false := by
  have hhead := List.head?_dropWhile_not isBlank s
  unfold trimStart at h
  rw [h] at hhead
  simpa using hhead

theorem not_blank_of_trim_eq_cons {rest : List Char} (h : trim s = c :: rest) :
    isBlank c = false := by
  obtain ⟨back, hback, -⟩ := exists_trimEnd (trimStart s)
  unfold trim at h
  rw [h, List.cons_append] at hback
  exact not_blank_of_trimStart_eq_cons hback

theorem trimEnd_trimEnd (s : List Char) : trimEnd (trimEnd s) = trimEnd s := by
  unfold trimEnd
  rw [List.reverse_reverse, List.dropWhile_idempotent]

theorem trimStart_trim (s : List Char) : trimStart (trim s) = trim s := by
  cases htrim : trim s with
  | nil => rfl
  | cons c rest => exact trimStart_of_not_blank (not_blank_of_trim_eq_cons htrim)

theorem trim_trim (s : List Char) : trim (trim s) = trim s := by
  rw [trim, trimStart_trim]
  exact trimEnd_trimEnd (trimStart s)

theorem trim_blanks_append {front : List Char} (h : ∀ c ∈ front, isBlank c) (s : List Char) :
    trim (front ++ s) = trim s := by
  rw [trim, trim, trimStart_append_of_blank h]

theorem trim_cons_of_blank (hc : isBlank c = true) (s : List Char) : trim (c :: s) = trim s := by
  have hfront : ∀ d ∈ [c], isBlank d = true := by simpa using hc
  exact trim_blanks_append hfront s

/-- Trimming twice is trimming once, whatever blanks were put in front in between. -/
theorem trim_append_trim {front : List Char} (h : ∀ c ∈ front, isBlank c) (s : List Char) :
    trim (front ++ trim s) = trim s := by
  rw [trim_blanks_append h, trim_trim]

theorem trimEnd_append_of_blank {back : List Char} (h : ∀ c ∈ back, isBlank c) (s : List Char) :
    trimEnd (s ++ back) = trimEnd s := by
  unfold trimEnd
  rw [List.reverse_append, List.dropWhile_append_of_pos (by simpa using h)]

/-- A character that is not blank keeps the text behind it from being trimmed at the start. -/
theorem trimStart_append_cons (hc : isBlank c = false) (s t : List Char) :
    trimStart (s ++ c :: t) = trimStart s ++ c :: t := by
  unfold trimStart
  exact dropWhile_append_cons hc s t

/-- A character that is not blank keeps the text before it from being trimmed at the end. -/
theorem trimEnd_append_cons (hc : isBlank c = false) (s t : List Char) :
    trimEnd (s ++ c :: t) = s ++ c :: trimEnd t := by
  have h := trimStart_append_cons hc t.reverse s.reverse
  unfold trimStart at h
  simp [trimEnd, h]

theorem trim_append_blanks {back : List Char} (h : ∀ c ∈ back, isBlank c) (s : List Char) :
    trim (s ++ back) = trim s := by
  obtain ⟨blanks, hs, hblanks⟩ := exists_trimStart s
  rw [hs, List.append_assoc, trim_blanks_append hblanks, trim_blanks_append hblanks]
  cases hrest : trimStart s with
  | nil =>
      rw [List.nil_append, ← List.append_nil back, trim_blanks_append h]
  | cons c rest =>
      have hc := not_blank_of_trimStart_eq_cons hrest
      rw [trim, trim, List.cons_append, trimStart_of_not_blank hc, trimStart_of_not_blank hc,
        ← List.cons_append, trimEnd_append_of_blank h]

theorem not_isMarkupBlank (hc : isBlank c = false) : isMarkupBlank c = false := by
  by_contra hblank
  rw [isBlank_of_isMarkupBlank (by simpa using hblank)] at hc
  cases hc

theorem trim_dropWhile_isMarkupBlank (s : List Char) :
    trim (s.dropWhile isMarkupBlank) = trim s := by
  have hblank : ∀ c ∈ s.takeWhile isMarkupBlank, isBlank c = true :=
    fun c hc => isBlank_of_isMarkupBlank (List.mem_takeWhile_imp hc)
  rw [← trim_blanks_append hblank, List.takeWhile_append_dropWhile]

theorem blank_of_trim_eq_nil (h : trim s = []) : ∀ c ∈ s, isBlank c := by
  obtain ⟨front, back, hs, hfront, hback⟩ := exists_trim s
  rw [h, List.append_nil] at hs
  intro c hc
  exact (List.mem_append.mp (hs ▸ hc)).elim (hfront c) (hback c)

/-- A text is trimmed when it neither begins nor ends with a blank. -/
theorem trim_eq_self_iff : trim s = s ↔
    (∀ c ∈ s.head?, isBlank c = false) ∧ ∀ c ∈ s.getLast?, isBlank c = false := by
  constructor
  · intro h
    constructor
    · intro c hc
      obtain ⟨rest, rfl⟩ := List.head?_eq_some_iff.mp hc
      exact not_blank_of_trim_eq_cons h
    · intro c hc
      obtain ⟨rest, rfl⟩ := List.getLast?_eq_some_iff.mp hc
      by_contra hblank
      have hback : ∀ d ∈ [c], isBlank d = true := by simpa using hblank
      have hcut := trim_append_blanks hback rest
      have hle := trim_length_le rest
      rw [← hcut, h, List.length_append, List.length_singleton] at hle
      omega
  · rintro ⟨hhead, hlast⟩
    have hstart : trimStart s = s := by
      cases s with
      | nil => rfl
      | cons c rest => exact trimStart_of_not_blank (hhead c rfl)
    rw [trim, hstart]
    rcases List.eq_nil_or_concat s with rfl | ⟨rest, c, rfl⟩
    · rfl
    · rw [List.concat_eq_append, trimEnd_append_cons (hlast c (by simp))]
      rfl

/-- What stands between trimmed texts is not trimmed. -/
theorem trim_append_append {t : List Char} (hs : s ≠ []) (htrim : trim s = s) (ht : t ≠ [])
    (htrim' : trim t = t) (between : List Char) :
    trim (s ++ between ++ t) = s ++ between ++ t := by
  apply trim_eq_self_iff.mpr
  constructor
  · rw [List.append_assoc, List.head?_append_of_ne_nil _ hs]
    exact (trim_eq_self_iff.mp htrim).1
  · rw [List.getLast?_append_of_ne_nil _ ht]
    exact (trim_eq_self_iff.mp htrim').2

theorem trim_intercalate {texts : List (List Char)}
    (h : ∀ text ∈ texts, text ≠ [] ∧ trim text = text) (separator : List Char) :
    trim (separator.intercalate texts) = separator.intercalate texts := by
  suffices hboth : trim (separator.intercalate texts) = separator.intercalate texts ∧
      (texts ≠ [] → separator.intercalate texts ≠ []) from hboth.1
  induction texts with
  | nil => exact ⟨rfl, fun hne => absurd rfl hne⟩
  | cons text texts ih =>
      obtain ⟨⟨hne, htrim⟩, hrest⟩ := List.forall_mem_cons.mp h
      cases texts with
      | nil => simp [htrim, hne]
      | cons next texts =>
          obtain ⟨htrim', hne'⟩ := ih hrest
          rw [List.intercalate_cons_cons]
          exact ⟨trim_append_append hne htrim (hne' (List.cons_ne_nil _ _)) htrim' _, by simp [hne]⟩

/-- A trimmed word keeps what stands in front of it from being trimmed at the end. -/
theorem trimEnd_append_of_trimmed (hne : s ≠ []) (h : trim s = s) (front : List Char) :
    trimEnd (front ++ s) = front ++ s := by
  rcases List.eq_nil_or_concat s with rfl | ⟨rest, c, rfl⟩
  · exact absurd rfl hne
  · have hlast := (trim_eq_self_iff.mp h).2 c (by simp)
    rw [List.concat_eq_append, ← List.append_assoc, trimEnd_append_cons hlast]
    rfl

/-- There are no blanks at the end of a trimmed text. -/
theorem eq_nil_of_trimmed {back : List Char} (h : trim (s ++ back) = s ++ back)
    (hback : ∀ c ∈ back, isBlank c) : back = [] := by
  rcases List.eq_nil_or_concat back with rfl | ⟨rest, c, rfl⟩
  · rfl
  · have hlast := (trim_eq_self_iff.mp h).2 c (by simp)
    rw [hback c (by simp)] at hlast
    cases hlast

end PageTemplate.Text
