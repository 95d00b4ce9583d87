import Mathlib.Data.List.Chain
import Mathlib.Data.List.TakeWhile
import PageTemplate.Text.Split

/-! # Cutting text that is followed by other text

What is cut off a text does not depend on the text behind the cut.
-/

namespace PageTemplate.Text

variable {p : Char → Bool} {s t before after pattern : List Char}

/-! ## Where a character stops a search -/

theorem takeWhile_append_cons {c : Char} (hs : ∀ d ∈ s, p d) (hc : p c = false) (t : List Char) :
    (s ++ c :: t).takeWhile p = s := by
  rw [List.takeWhile_append_of_pos hs]
  simp [hc]

theorem dropWhile_append_cons {c : Char} (hc : p c = false) (s t : List Char) :
    (s ++ c :: t).dropWhile p = s.dropWhile p ++ c :: t := by
  induction s with
  | nil => simp [hc]
  | cons d s ih =>
      by_cases hd : p d
      · simpa [hd] using ih
      · simp [hd]

/-- A pattern that stands at the start of a text stands before a character that it does not have. -/
theorem isPrefix_of_append_cons {c : Char} (hc : c ∉ pattern) (h : pattern <+: s ++ c :: t) :
    pattern <+: s := by
  induction pattern generalizing s with
  | nil => exact List.nil_prefix
  | cons d pattern ih =>
      obtain ⟨hd, hpattern⟩ := not_or.mp (List.mem_cons.not.mp hc)
      cases s with
      | nil => exact absurd (List.cons_prefix_cons.mp h).1.symm hd
      | cons e s =>
          obtain ⟨rfl, hrest⟩ := List.cons_prefix_cons.mp h
          exact List.cons_prefix_cons.mpr ⟨rfl, ih hpattern hrest⟩

/-! ## Patterns -/

theorem strip?_append (pattern s : List Char) : strip? pattern (pattern ++ s) = some s := by
  induction pattern with
  | nil => simp [strip?]
  | cons c pattern ih => simp [strip?, ih]

theorem strip?_eq_some_iff : strip? pattern s = some after ↔ s = pattern ++ after :=
  ⟨eq_append_of_strip?, fun h => h ▸ strip?_append pattern after⟩

theorem strip?_eq_none_iff : strip? pattern s = none ↔ ¬pattern <+: s := by
  rw [Option.eq_none_iff_forall_ne_some]
  constructor
  · rintro h ⟨after, rfl⟩
    exact h after (strip?_append pattern after)
  · intro h after hstrip
    exact h ⟨after, (strip?_eq_some_iff.mp hstrip).symm⟩

/-- A text that is long enough decides whether the pattern stands at its start. -/
theorem strip?_append_of_length_le (h : pattern.length ≤ s.length) (t : List Char) :
    strip? pattern (s ++ t) = (strip? pattern s).map (· ++ t) := by
  induction pattern generalizing s with
  | nil => simp [strip?]
  | cons c pattern ih =>
      cases s with
      | nil => simp at h
      | cons d s =>
          simp only [List.cons_append, strip?]
          split
          · exact ih (by simpa using h)
          · rfl

theorem strip?_cons_of_ne {c d : Char} (h : c ≠ d) : strip? (c :: pattern) (d :: s) = none := by
  simp [strip?, h]

/-- A pattern cannot run over a character that it does not have. -/
theorem strip?_append_of_not_mem {c : Char} (h : c ∉ pattern) (s t t' : List Char) :
    (strip? pattern (s ++ c :: t)).isSome = (strip? pattern (s ++ c :: t')).isSome := by
  induction s generalizing pattern with
  | nil =>
      cases pattern with
      | nil => simp [strip?]
      | cons d pattern =>
          have hne : d ≠ c := fun heq => h (by simp [heq])
          simp [strip?_cons_of_ne hne]
  | cons d s ih =>
      cases pattern with
      | nil => simp [strip?]
      | cons e pattern =>
          simp only [List.cons_append, strip?]
          split
          · exact ih fun hmem => h (List.mem_cons_of_mem _ hmem)
          · rfl

theorem cutAt?_pattern_append (pattern s : List Char) :
    cutAt? pattern (pattern ++ s) = some ([], s) := by
  have hstrip := strip?_append pattern s
  cases htext : pattern ++ s with
  | nil => rw [htext] at hstrip; simp [cutAt?, hstrip]
  | cons c rest => rw [htext] at hstrip; simp [cutAt?, hstrip]

/-- The first place of a pattern stays the first one when the text behind it changes. -/
theorem cutAt?_append (h : cutAt? pattern s = some (before, after)) (t : List Char) :
    cutAt? pattern (before ++ pattern ++ t) = some (before, t) := by
  induction s generalizing before with
  | nil =>
      obtain ⟨rest, -, hrest⟩ := Option.map_eq_some_iff.mp h
      obtain ⟨rfl, -⟩ := Prod.mk.inj hrest
      exact cutAt?_pattern_append pattern t
  | cons c s ih =>
      unfold cutAt? at h
      split at h
      · simp only [Option.some.injEq, Prod.mk.injEq] at h
        obtain ⟨rfl, -⟩ := h
        exact cutAt?_pattern_append pattern t
      next hstrip =>
        obtain ⟨⟨rest, after'⟩, hcut, heq⟩ := Option.map_eq_some_iff.mp h
        obtain ⟨rfl, rfl⟩ := Prod.mk.inj heq
        have hlength : pattern.length ≤ (c :: rest ++ pattern).length := by
          simp only [List.length_append, List.length_cons]
          omega
        have hnone : strip? pattern (c :: rest ++ pattern) = none := by
          rw [eq_append_of_cutAt? hcut, ← List.cons_append, ← List.cons_append,
            strip?_append_of_length_le hlength] at hstrip
          exact Option.map_eq_none_iff.mp hstrip
        have hnone' := strip?_append_of_length_le hlength t
        rw [hnone] at hnone'
        simp only [List.cons_append] at hnone' ⊢
        unfold cutAt?
        rw [hnone', ih hcut]
        rfl

/-- Two characters that stand next to each other nowhere in the text before a cut. -/
theorem isChain_of_cutAt? {c d : Char} (h : cutAt? [c, d] s = some (before, after)) :
    before.IsChain fun a b => a = c → b ≠ d := by
  induction s generalizing before with
  | nil => simp [cutAt?, strip?] at h
  | cons x s ih =>
      unfold cutAt? at h
      split at h
      · simp only [Option.some.injEq, Prod.mk.injEq] at h
        exact h.1 ▸ .nil
      next hstrip =>
        obtain ⟨⟨rest, after'⟩, hcut, heq⟩ := Option.map_eq_some_iff.mp h
        obtain ⟨rfl, rfl⟩ := Prod.mk.inj heq
        cases rest with
        | nil => exact .singleton x
        | cons y rest =>
            refine List.isChain_cons_cons.mpr ⟨?_, ih hcut⟩
            rintro rfl rfl
            rw [eq_append_of_cutAt? hcut] at hstrip
            simp [strip?] at hstrip

theorem cutAt?_of_isChain {c d : Char} (hne : c ≠ d)
    (h : s.IsChain fun a b => a = c → b ≠ d) (t : List Char) :
    cutAt? [c, d] (s ++ c :: d :: t) = some (s, t) := by
  induction s with
  | nil => exact cutAt?_pattern_append [c, d] t
  | cons x s ih =>
      have hnone : strip? [c, d] (x :: (s ++ c :: d :: t)) = none := by
        by_cases hx : x = c
        · cases s with
          | nil => simp [strip?, hx, hne.symm]
          | cons y s =>
              have hy := (List.isChain_cons_cons.mp h).1 hx
              simp [strip?, hx, hy.symm]
        · exact strip?_cons_of_ne fun heq => hx heq.symm
      simp only [List.cons_append]
      unfold cutAt?
      rw [hnone, ih h.tail]
      rfl

theorem splitAt?_append (hbefore : ∀ c ∈ s, p c = false) {c : Char} (hc : p c) (t : List Char) :
    splitAt? p (s ++ c :: t) = some (s, t) := by
  have hall : ∀ d ∈ s, (!p d) = true := by simpa using hbefore
  have hstop : (!p c) = false := by simpa using hc
  have hdrop : (s ++ c :: t).dropWhile (!p ·) = c :: t := by
    rw [dropWhile_append_cons hstop, List.dropWhile_eq_nil_iff.mpr hall, List.nil_append]
  have htake : (s ++ c :: t).takeWhile (!p ·) = s := takeWhile_append_cons hall hstop t
  unfold splitAt?
  rw [hdrop, htake]

/-- The first place of a character divides a text in one way only. -/
theorem append_cons_inj {s' t' : List Char} {c : Char} (hs : c ∉ s) (hs' : c ∉ s') :
    s ++ c :: t = s' ++ c :: t' ↔ s = s' ∧ t = t' := by
  refine ⟨fun h => ?_, fun ⟨hbefore, hafter⟩ => by rw [hbefore, hafter]⟩
  have hsplit : ∀ {s : List Char}, c ∉ s → ∀ t, splitAt? (· == c) (s ++ c :: t) = some (s, t) :=
    fun hs t => splitAt?_append (fun d hd => by simpa using ne_of_mem_of_not_mem hd hs) (by simp) t
  have hsame := congrArg (splitAt? (· == c)) h
  rwa [hsplit hs, hsplit hs', Option.some.injEq, Prod.mk.injEq] at hsame

theorem eq_append_of_splitAt? (h : splitAt? p s = some (before, after)) :
    ∃ c, p c ∧ s = before ++ c :: after ∧ ∀ c ∈ before, p c = false := by
  unfold splitAt? at h
  split at h
  · contradiction
  next c rest hdrop =>
    simp only [Option.some.injEq, Prod.mk.injEq] at h
    obtain ⟨rfl, rfl⟩ := h
    refine ⟨c, ?_, ?_, ?_⟩
    · have hhead := List.head?_dropWhile_not (!p ·) s
      rw [hdrop] at hhead
      simpa using hhead
    · rw [← hdrop, List.takeWhile_append_dropWhile]
    · intro c hc
      simpa using List.mem_takeWhile_imp hc

/-! ## Bytes -/

theorem takeBytes_byteLength_append (s t : List Char) : takeBytes (byteLength s) (s ++ t) = s := by
  induction s with
  | nil =>
      cases t with
      | nil => rfl
      | cons c t => exact if_neg (Nat.not_le_of_lt c.utf8Size_pos)
  | cons c s ih =>
      have hlength : byteLength (c :: s) = c.utf8Size + byteLength s := rfl
      rw [List.cons_append, takeBytes, hlength, if_pos (Nat.le_add_right _ _),
        Nat.add_sub_cancel_left, ih]

end PageTemplate.Text
