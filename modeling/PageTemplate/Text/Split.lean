/-! # Cutting text at a character or a pattern

Small cutting functions over lists of characters, each with the law that nothing of the text
is lost.
-/

namespace PageTemplate.Text

variable {p : Char → Bool} {s before after pattern : List Char}

/-- The text before and after the first character that satisfies `p`; that character itself
belongs to neither part. -/
def splitAt? (p : Char → Bool) (s : List Char) : Option (List Char × List Char) :=
  match s.dropWhile (!p ·) with
  | [] => none
  | _ :: after => some (s.takeWhile (!p ·), after)

theorem splitAt?_length (hsplit : splitAt? p s = some (before, after)) :
    before.length + after.length + 1 = s.length := by
  unfold splitAt? at hsplit
  split at hsplit
  · contradiction
  next hdrop =>
    simp only [Option.some.injEq, Prod.mk.injEq] at hsplit
    obtain ⟨rfl, rfl⟩ := hsplit
    have hall := congrArg List.length (List.takeWhile_append_dropWhile (p := (!p ·)) (l := s))
    rw [hdrop] at hall
    simpa [Nat.add_assoc] using hall

/-- The text after `pattern`, when the text starts with it. -/
def strip? (pattern s : List Char) : Option (List Char) :=
  match pattern, s with
  | [], s => some s
  | _ :: _, [] => none
  | c :: pattern, d :: s => if c == d then strip? pattern s else none

theorem eq_append_of_strip? (hstrip : strip? pattern s = some after) : s = pattern ++ after := by
  induction pattern generalizing s with
  | nil => simpa [strip?] using hstrip
  | cons c pattern ih =>
    cases s with
    | nil => simp [strip?] at hstrip
    | cons d s =>
      simp only [strip?] at hstrip
      split at hstrip
      next hcd => rw [beq_iff_eq.mp hcd, ih hstrip, List.cons_append]
      · contradiction

/-- The text before and after the first place where `pattern` stands. -/
def cutAt? (pattern : List Char) : List Char → Option (List Char × List Char)
  | [] => (strip? pattern []).map fun after => ([], after)
  | c :: s =>
    match strip? pattern (c :: s) with
    | some after => some ([], after)
    | none => (cutAt? pattern s).map fun (before, after) => (c :: before, after)

theorem eq_append_of_cutAt? (hcut : cutAt? pattern s = some (before, after)) :
    s = before ++ pattern ++ after := by
  induction s generalizing before with
  | nil =>
    obtain ⟨rest, hstrip, hrest⟩ := Option.map_eq_some_iff.mp hcut
    obtain ⟨rfl, rfl⟩ := Prod.mk.inj hrest
    simpa using eq_append_of_strip? hstrip
  | cons c s ih =>
    unfold cutAt? at hcut
    split at hcut
    next hstrip =>
      simp only [Option.some.injEq, Prod.mk.injEq] at hcut
      obtain ⟨rfl, rfl⟩ := hcut
      simpa using eq_append_of_strip? hstrip
    · obtain ⟨⟨b, a⟩, hrest, heq⟩ := Option.map_eq_some_iff.mp hcut
      simp only [Prod.mk.injEq] at heq
      obtain ⟨rfl, rfl⟩ := heq
      simp [ih hrest]

/-- The number of bytes that the text takes in UTF-8. -/
def byteLength (s : List Char) : Nat := (s.map Char.utf8Size).foldr (· + ·) 0

theorem byteLength_append (s t : List Char) :
    byteLength (s ++ t) = byteLength s + byteLength t := by
  induction s with
  | nil => simp [byteLength]
  | cons c s ih =>
    simp only [byteLength, List.cons_append, List.map_cons, List.foldr_cons] at ih ⊢
    rw [ih, Nat.add_assoc]

/-- The longest start of the text that takes no more than `n` bytes. -/
def takeBytes : Nat → List Char → List Char
  | _, [] => []
  | n, c :: s => if c.utf8Size ≤ n then c :: takeBytes (n - c.utf8Size) s else []

end PageTemplate.Text
