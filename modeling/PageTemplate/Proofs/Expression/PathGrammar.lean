import PageTemplate.Expression.Parser
import PageTemplate.Proofs.Ensures
import PageTemplate.Proofs.Text.Cutting
import PageTemplate.Proofs.Text.Trimming

/-! # The grammar of paths

A path is text cut at slashes and bars. A stretch between them is the name of a segment, unless it
begins like the call of a module; then it is an operation, which takes the slashes and bars behind
it into its argument. The grammar says which alternates a text spells, and a path is read from a
text exactly when the text spells its alternates behind the mark of its scope.
-/

namespace PageTemplate

open Text

/-! ## Scopes -/

namespace DefinitionScope

/-- The word that asks for the scope. -/
def keyword : DefinitionScope → String
  | .localScope => "local"
  | .globalScope => "global"

/-- What stands in front of the text that the scope is meant for. -/
def mark : Option DefinitionScope → List Char
  | none => []
  | some scope => scope.keyword.toList ++ [':']

/-- The text is the body behind the mark of its scope. Without a scope it begins with no mark. -/
def Marks (scope : Option DefinitionScope) (body text : List Char) : Prop :=
  text = mark scope ++ body ∧
    (scope = none → ∀ other : DefinitionScope, ¬mark (some other) <+: text)

theorem strip_mark_append (scope : DefinitionScope) (body : List Char) :
    strip (mark (some scope) ++ body) = (some scope, body) := by
  cases scope with
  | localScope =>
      have hlocal : strip? "local:".toList (mark (some .localScope) ++ body) = some body :=
        strip?_append _ body
      simp only [strip, hlocal]
  | globalScope =>
      have hlocal : strip? "local:".toList (mark (some .globalScope) ++ body) = none :=
        strip?_cons_of_ne (by decide)
      have hglobal : strip? "global:".toList (mark (some .globalScope) ++ body) = some body :=
        strip?_append _ body
      simp only [strip, hlocal, hglobal]

theorem strip_of_not_mark {text : List Char}
    (h : ∀ scope : DefinitionScope, ¬mark (some scope) <+: text) : strip text = (none, text) := by
  have hlocal : strip? "local:".toList text = none := strip?_eq_none_iff.mpr (h .localScope)
  have hglobal : strip? "global:".toList text = none := strip?_eq_none_iff.mpr (h .globalScope)
  simp only [strip, hlocal, hglobal]

theorem strip_eq_iff {scope : Option DefinitionScope} {body text : List Char} :
    strip text = (scope, body) ↔ Marks scope body text := by
  constructor
  · intro h
    by_cases hmark : ∃ other : DefinitionScope, mark (some other) <+: text
    · obtain ⟨other, rest, rfl⟩ := hmark
      rw [strip_mark_append] at h
      cases h
      exact ⟨rfl, nofun⟩
    · rw [strip_of_not_mark (not_exists.mp hmark)] at h
      cases h
      exact ⟨rfl, fun _ => not_exists.mp hmark⟩
  · rintro ⟨htext, hnone⟩
    cases scope with
    | none =>
        rw [strip_of_not_mark (hnone rfl), htext]
        rfl
    | some scope => rw [htext, strip_mark_append]

end DefinitionScope

/-! ## Operations, names and alternates -/

/-- A name that a module may have. -/
def IsModuleName (module : List Char) : Prop := module ≠ [] ∧ ∀ c ∈ module, isModuleChar c = true

/-- Behind blanks of markup the text begins with the name of a module and a colon. -/
def OpensOperation (text : List Char) : Prop :=
  ∃ blanks module, blanks ++ module ++ [':'] <+: text ∧
    (∀ c ∈ blanks, isMarkupBlank c = true) ∧ IsModuleName module

/-- The text stands between separators, or at the end, and is no operation. -/
structure IsStretch (text : List Char) : Prop where
  no_slash : '/' ∉ text
  no_bar : '|' ∉ text
  no_operation : ¬OpensOperation text

/-- The segment that a stretch stands for, blanks around it left aside. A question mark in front
makes it dynamic, which a segment that `starts` an alternate cannot be. -/
inductive Segment.IsSpelled (starts : Bool) : List Char → Segment → Prop
  | name {text : List Char} (hne : trim text ≠ []) (hmark : (trim text).head? ≠ some '?') :
    IsSpelled starts text (.name (String.ofList (trim text)))
  | dynamic {text word : List Char} (hword : trim text = '?' :: word) (hne : word ≠ [])
    (hstarts : starts = false) : IsSpelled starts text (.dynamic (String.ofList word))

/-- The alternates that a text spells, each with its segments. The text `starts` an alternate, or
it goes on with one behind a slash. -/
inductive Path.Spells : Bool → List Char → List (List Segment) → Prop
  | operation {starts : Bool} {blanks module argument : List Char}
    (hblanks : ∀ c ∈ blanks, isMarkupBlank c = true) (hmodule : IsModuleName module) :
    Spells starts (blanks ++ module ++ ':' :: argument)
      [[.operation (String.ofList module) (String.ofList argument)]]
  | last {starts : Bool} {text : List Char} {segment : Segment} (htext : IsStretch text)
    (hsegment : segment.IsSpelled starts text) : Spells starts text [[segment]]
  | slash {starts : Bool} {text rest : List Char} {segment : Segment} {first : List Segment}
    {others : List (List Segment)} (htext : IsStretch text)
    (hsegment : segment.IsSpelled starts text) (hrest : Spells false rest (first :: others)) :
    Spells starts (text ++ '/' :: rest) ((segment :: first) :: others)
  | bar {starts : Bool} {text rest : List Char} {segment : Segment}
    {others : List (List Segment)} (htext : IsStretch text)
    (hsegment : segment.IsSpelled starts text) (hrest : Spells true rest others) :
    Spells starts (text ++ '|' :: rest) ([segment] :: others)

/-! ## Where an operation begins -/

theorem isModuleName_keyword (scope : DefinitionScope) : IsModuleName scope.keyword.toList :=
  ⟨by cases scope <;> decide, List.all_eq_true.mp (by cases scope <;> decide)⟩

/-- The mark of a scope could be the name of a module. -/
theorem opensOperation_of_mark {scope : DefinitionScope} {text : List Char}
    (h : DefinitionScope.mark (some scope) <+: text) : OpensOperation text :=
  ⟨[], scope.keyword.toList, h, List.forall_mem_nil _, isModuleName_keyword scope⟩

/-- Letters and digits lie between the codes of `0` and `z`. -/
theorem code_of_isAlphanum {c : Char} (h : c.isAlphanum = true) :
    '0'.toNat ≤ c.toNat ∧ c.toNat ≤ 'z'.toNat := by
  rcases Bool.or_eq_true_iff.mp h with hletter | hdigit
  · rcases Bool.or_eq_true_iff.mp hletter with hupper | hlower
    · have hcode : 'A' ≤ c ∧ c ≤ 'Z' := of_decide_eq_true hupper
      exact ⟨le_trans (by decide) (UInt32.le_iff_toNat_le.mp hcode.1),
        le_trans (UInt32.le_iff_toNat_le.mp hcode.2) (by decide)⟩
    · obtain ⟨hlow, hhigh⟩ := Bool.and_eq_true_iff.mp hlower
      exact ⟨le_trans (by decide) (UInt32.le_iff_toNat_le.mp (of_decide_eq_true hlow)),
        UInt32.le_iff_toNat_le.mp (of_decide_eq_true hhigh)⟩
  · obtain ⟨hlow, hhigh⟩ := Char.isDigit_iff_toNat.mp hdigit
    exact ⟨hlow, le_trans hhigh (by decide)⟩

theorem not_blank_of_isModuleChar {c : Char} (h : isModuleChar c = true) : isBlank c = false := by
  simp only [isModuleChar, Bool.or_eq_true, beq_iff_eq] at h
  rcases h with (hword | rfl) | rfl
  · obtain ⟨hlow, hhigh⟩ := code_of_isAlphanum hword
    simp only [Char.reduceToNat] at hlow hhigh
    simp only [isBlank, Bool.or_eq_false_iff, Bool.and_eq_false_iff, decide_eq_false_iff_not,
      beq_eq_false_iff_ne]
    omega
  · decide
  · decide

/-- A module name ends where the colon stands. -/
theorem Segment.operation?_eq_some_iff {text module argument : List Char} :
    operation? text = some (module, argument) ↔
      IsModuleName module ∧ text = module ++ ':' :: argument := by
  constructor
  · intro h
    unfold operation? at h
    split at h
    next c rest argument' hmodule hargument =>
      obtain ⟨rfl, rfl⟩ := Prod.mk.inj (Option.some.inj h)
      have htext := List.takeWhile_append_dropWhile (p := isModuleChar) (l := text)
      refine ⟨⟨List.cons_ne_nil _ _, fun d hd => ?_⟩, by rw [← htext, hmodule, hargument]⟩
      exact List.mem_takeWhile_imp (hmodule ▸ hd)
    next => cases h
  · rintro ⟨⟨hne, hmodule⟩, rfl⟩
    obtain ⟨c, rest, rfl⟩ := List.exists_cons_of_ne_nil hne
    have hcolon : isModuleChar ':' = false := by decide
    rw [operation?, takeWhile_append_cons hmodule hcolon, dropWhile_append_cons hcolon,
      List.dropWhile_eq_nil_iff.mpr hmodule]
    rfl

/-- Blanks of markup in front of a module name are taken off, and nothing else. -/
theorem dropWhile_operation {blanks module rest : List Char}
    (hblanks : ∀ c ∈ blanks, isMarkupBlank c = true) (hmodule : IsModuleName module) :
    (blanks ++ module ++ rest).dropWhile isMarkupBlank = module ++ rest := by
  obtain ⟨c, word, rfl⟩ := List.exists_cons_of_ne_nil hmodule.1
  have hc := not_isMarkupBlank (not_blank_of_isModuleChar (hmodule.2 c List.mem_cons_self))
  rw [List.append_assoc, List.dropWhile_append_of_pos hblanks]
  simp [hc]

theorem opensOperation_iff {text : List Char} : OpensOperation text ↔
    ∃ module argument,
      Segment.operation? (text.dropWhile isMarkupBlank) = some (module, argument) := by
  constructor
  · rintro ⟨blanks, module, ⟨argument, rfl⟩, hblanks, hmodule⟩
    refine ⟨module, argument, ?_⟩
    rw [List.append_assoc, dropWhile_operation hblanks hmodule, Segment.operation?_eq_some_iff]
    exact ⟨hmodule, rfl⟩
  · rintro ⟨module, argument, hread⟩
    obtain ⟨hmodule, hbody⟩ := Segment.operation?_eq_some_iff.mp hread
    refine ⟨text.takeWhile isMarkupBlank, module, ⟨argument, ?_⟩,
      fun c hc => List.mem_takeWhile_imp hc, hmodule⟩
    rw [List.append_assoc, List.append_assoc, List.singleton_append, ← hbody,
      List.takeWhile_append_dropWhile]

instance (text : List Char) : Decidable (OpensOperation text) :=
  decidable_of_iff ((Segment.operation? (text.dropWhile isMarkupBlank)).isSome = true) <| by
    simp [opensOperation_iff, Option.isSome_iff_exists, Prod.exists]

theorem operation?_eq_none_iff {text : List Char} :
    Segment.operation? (text.dropWhile isMarkupBlank) = none ↔ ¬OpensOperation text := by
  simp [opensOperation_iff, Option.eq_none_iff_forall_ne_some, Prod.forall]

/-! ## Separators -/

theorem isSegmentChar_eq_false_iff {c : Char} : isSegmentChar c = false ↔ c = '/' ∨ c = '|' := by
  simp [isSegmentChar, or_iff_not_imp_left]

theorem not_blank_of_separator {c : Char} (h : isSegmentChar c = false) : isBlank c = false := by
  rcases isSegmentChar_eq_false_iff.mp h with rfl | rfl <;> decide

theorem not_mem_operation {c : Char} (hc : isSegmentChar c = false)
    {blanks module : List Char} (hblanks : ∀ d ∈ blanks, isMarkupBlank d = true)
    (hmodule : IsModuleName module) : c ∉ blanks ++ module ++ [':'] := by
  have hcases := isSegmentChar_eq_false_iff.mp hc
  have hblank := not_isMarkupBlank (not_blank_of_separator hc)
  have hchar : isModuleChar c = false := by rcases hcases with rfl | rfl <;> rfl
  have hcolon : c ≠ ':' := by rcases hcases with rfl | rfl <;> decide
  simp only [List.mem_append, List.mem_singleton, hcolon, or_false, not_or]
  refine ⟨fun hmem => ?_, fun hmem => ?_⟩
  · rw [hblanks c hmem] at hblank
    cases hblank
  · rw [hmodule.2 c hmem] at hchar
    cases hchar

/-- Whether an operation begins does not depend on what stands behind a separator. -/
theorem opensOperation_append_cons {c : Char} (hc : isSegmentChar c = false)
    {text rest : List Char} : OpensOperation (text ++ c :: rest) ↔ OpensOperation text := by
  constructor
  · rintro ⟨blanks, module, hstart, hblanks, hmodule⟩
    exact ⟨blanks, module, isPrefix_of_append_cons (not_mem_operation hc hblanks hmodule) hstart,
      hblanks, hmodule⟩
  · rintro ⟨blanks, module, hstart, hblanks, hmodule⟩
    exact ⟨blanks, module, hstart.trans (List.prefix_append _ _), hblanks, hmodule⟩

theorem IsStretch.no_separator {text : List Char} (h : IsStretch text) :
    ∀ c ∈ text, isSegmentChar c = true := by
  intro c hc
  have hslash : c ≠ '/' := fun heq => h.no_slash (heq ▸ hc)
  have hbar : c ≠ '|' := fun heq => h.no_bar (heq ▸ hc)
  simp [isSegmentChar, hslash, hbar]

theorem IsStretch.no_separator_dropWhile {text : List Char} (h : IsStretch text) :
    ∀ c ∈ text.dropWhile isMarkupBlank, isSegmentChar c = true :=
  fun c hc => h.no_separator c ((List.dropWhile_sublist _).subset hc)

theorem isStretch_iff {text : List Char} : IsStretch text ↔
    (∀ c ∈ text, isSegmentChar c = true) ∧ ¬OpensOperation text := by
  constructor
  · exact fun h => ⟨h.no_separator, h.no_operation⟩
  · rintro ⟨hchars, hoperation⟩
    exact ⟨fun hmem => absurd (hchars _ hmem) (by decide),
      fun hmem => absurd (hchars _ hmem) (by decide), hoperation⟩

/-! ## What is cut off -/

namespace Segment

theorem splitAll_operation {blanks module : List Char}
    (hblanks : ∀ c ∈ blanks, isMarkupBlank c = true) (hmodule : IsModuleName module)
    (argument : List Char) :
    splitAll (blanks ++ module ++ ':' :: argument) = ([.operation module argument], []) := by
  have hread : operation? (module ++ ':' :: argument) = some (module, argument) :=
    operation?_eq_some_iff.mpr ⟨hmodule, rfl⟩
  rw [splitAll, dropWhile_operation hblanks hmodule]
  simp only [hread]

theorem splitAll_last {text : List Char} (h : IsStretch text) :
    splitAll text = ([.name (text.dropWhile isMarkupBlank)], []) := by
  have hread := operation?_eq_none_iff.mpr h.no_operation
  have hword := List.takeWhile_eq_self_iff.mpr h.no_separator_dropWhile
  have hrest := List.dropWhile_eq_nil_iff.mpr h.no_separator_dropWhile
  rw [splitAll]
  simp only [hread]
  split
  next => rw [hword]
  next heq =>
    rw [hrest] at heq
    cases heq

/-- A stretch ends where a separator stands. -/
theorem splitAll_append_cons {text rest : List Char} {c : Char} (h : IsStretch text)
    (hc : isSegmentChar c = false) :
    splitAll (text ++ c :: rest) =
      if c = '/' then
        (.name (text.dropWhile isMarkupBlank) :: (splitAll rest).1, (splitAll rest).2)
      else ([.name (text.dropWhile isMarkupBlank)], (splitAll rest).1 :: (splitAll rest).2) := by
  have hblank := not_isMarkupBlank (not_blank_of_separator hc)
  have hread : operation? (text.dropWhile isMarkupBlank ++ c :: rest) = none := by
    rw [← dropWhile_append_cons hblank, operation?_eq_none_iff, opensOperation_append_cons hc]
    exact h.no_operation
  have hword := takeWhile_append_cons h.no_separator_dropWhile hc rest
  have hrest : (text.dropWhile isMarkupBlank ++ c :: rest).dropWhile isSegmentChar = c :: rest := by
    rw [dropWhile_append_cons hc, List.dropWhile_eq_nil_iff.mpr h.no_separator_dropWhile,
      List.nil_append]
  rw [splitAll, dropWhile_append_cons hblank]
  simp only [hread]
  split
  next heq =>
    rw [hrest] at heq
    cases heq
  next heq =>
    rw [hrest] at heq
    obtain ⟨rfl, rfl⟩ := List.cons.inj heq
    rw [hword]

/-! ## What is read -/

theorem ofRaw_name_iff {starts : Bool} {text : List Char} {segment : Segment} :
    ofRaw starts (.name text) = .ok segment ↔ segment.IsSpelled starts text := by
  constructor
  · intro h
    unfold ofRaw at h
    split at h
    next heq => cases heq
    next heq =>
      obtain rfl := Raw.name.inj heq
      split at h
      next => cases h
      next word hword =>
        split at h
        next => cases h
        next hstarts =>
          split at h
          next => cases h
          next hne =>
            cases h
            exact .dynamic hword (by simpa using hne) (by simpa using hstarts)
      next hne hmark =>
        cases h
        refine .name hne fun hhead => ?_
        obtain ⟨word, hword⟩ := List.head?_eq_some_iff.mp hhead
        exact hmark word hword
  · rintro (⟨hne, hmark⟩ | ⟨hword, hne, rfl⟩)
    · rw [ofRaw]
      split
      next heq => exact absurd heq hne
      next heq => simp [heq] at hmark
      next => rfl
    · simp [ofRaw, hword, hne]

theorem IsSpelled.trim_ne_nil {starts : Bool} {text : List Char} {segment : Segment}
    (h : segment.IsSpelled starts text) : trim text ≠ [] := by
  rcases h with ⟨hne, -⟩ | ⟨hword, -⟩
  · exact hne
  · simp [hword]

/-- A segment is spelled by every text with the same word. -/
theorem isSpelled_congr {starts : Bool} {text text' : List Char} {segment : Segment}
    (htrim : trim text = trim text') :
    segment.IsSpelled starts text ↔ segment.IsSpelled starts text' := by
  rw [← ofRaw_name_iff, ← ofRaw_name_iff, ofRaw, ofRaw, htrim]

theorem isSpelled_dropWhile_iff {starts : Bool} {text : List Char} {segment : Segment} :
    segment.IsSpelled starts (text.dropWhile isMarkupBlank) ↔ segment.IsSpelled starts text :=
  isSpelled_congr (trim_dropWhile_isMarkupBlank text)

/-- What was cut off a text gives the alternates. Its first segment `starts` one of them, or it goes
on with one. -/
inductive Gives (starts : Bool) : List Raw × List (List Raw) → List (List Segment) → Prop
  | read {raw : Raw} {raws : List Raw} {later : List (List Raw)} {segment : Segment}
    {segments : List Segment} {others : List (List Segment)}
    (hfirst : ofRaw starts raw = .ok segment)
    (hsegments : List.Forall₂ (fun raw segment => ofRaw false raw = .ok segment) raws segments)
    (hothers : List.Forall₂ (fun raws segments => ofRaws raws = .ok segments) later others) :
    Gives starts (raw :: raws, later) ((segment :: segments) :: others)

theorem ofRaws_cons_eq_ok_iff {raw : Raw} {raws : List Raw} {segments : List Segment} :
    ofRaws (raw :: raws) = .ok segments ↔ ∃ segment rest, segments = segment :: rest ∧
      ofRaw true raw = .ok segment ∧
      List.Forall₂ (fun raw segment => ofRaw false raw = .ok segment) raws rest := by
  rw [ofRaws]
  constructor
  · intro h
    obtain ⟨segment, hfirst, h⟩ := exists_ok_of_bind h
    obtain ⟨rest, hrest, h⟩ := exists_ok_of_bind h
    exact ⟨segment, rest, (Except.ok.inj h).symm, hfirst, mapM_eq_ok_iff.mp hrest⟩
  · rintro ⟨segment, rest, rfl, hfirst, hrest⟩
    rw [hfirst, mapM_eq_ok_iff.mpr hrest]
    rfl

variable {starts : Bool} {raw : Raw} {raws : List Raw} {later : List (List Raw)}
  {alternates : List (List Segment)}

theorem gives_singleton_iff : Gives starts ([raw], []) alternates ↔
    ∃ segment, alternates = [[segment]] ∧ ofRaw starts raw = .ok segment := by
  constructor
  · rintro ⟨hfirst, ⟨⟩, ⟨⟩⟩
    exact ⟨_, rfl, hfirst⟩
  · rintro ⟨segment, rfl, hfirst⟩
    exact .read hfirst .nil .nil

theorem gives_addName_iff (hne : raws ≠ []) : Gives starts (raw :: raws, later) alternates ↔
    ∃ segment first others, alternates = (segment :: first) :: others ∧
      ofRaw starts raw = .ok segment ∧ Gives false (raws, later) (first :: others) := by
  constructor
  · rintro ⟨hfirst, hsegments, hothers⟩
    cases hsegments with
    | nil => exact absurd rfl hne
    | cons hsecond hrest => exact ⟨_, _, _, rfl, hfirst, .read hsecond hrest hothers⟩
  · rintro ⟨segment, first, others, rfl, hfirst, ⟨hsecond, hrest, hothers⟩⟩
    exact .read hfirst (.cons hsecond hrest) hothers

theorem gives_true_iff (hne : raws ≠ []) : Gives true (raws, later) alternates ↔
    List.Forall₂ (fun raws segments => ofRaws raws = .ok segments) (raws :: later) alternates := by
  constructor
  · rintro ⟨hfirst, hsegments, hothers⟩
    exact .cons (ofRaws_cons_eq_ok_iff.mpr ⟨_, _, rfl, hfirst, hsegments⟩) hothers
  · rintro (_ | ⟨hraws, hothers⟩)
    obtain ⟨raw, raws, rfl⟩ := List.exists_cons_of_ne_nil hne
    obtain ⟨segment, rest, rfl, hfirst, hsegments⟩ := ofRaws_cons_eq_ok_iff.mp hraws
    exact .read hfirst hsegments hothers

theorem gives_addAlternate_iff (hne : raws ≠ []) :
    Gives starts ([raw], raws :: later) alternates ↔
      ∃ segment others, alternates = [segment] :: others ∧ ofRaw starts raw = .ok segment ∧
        Gives true (raws, later) others := by
  simp only [gives_true_iff hne]
  constructor
  · rintro ⟨hfirst, ⟨⟩, hothers⟩
    exact ⟨_, _, rfl, hfirst, hothers⟩
  · rintro ⟨segment, others, rfl, hfirst, hothers⟩
    exact .read hfirst .nil hothers

theorem splitAll_fst_ne_nil (text : List Char) : (splitAll text).1 ≠ [] := by
  fun_induction splitAll text <;> simp

theorem splitAll_cons_of_blank {c : Char} (hc : isMarkupBlank c = true) (text : List Char) :
    splitAll (c :: text) = splitAll text := by
  -- Nothing is looked at but the text behind its blanks.
  have hbody : (c :: text).dropWhile isMarkupBlank = text.dropWhile isMarkupBlank := by simp [hc]
  rw [splitAll.eq_def, splitAll.eq_def text]
  dsimp only
  generalize (c :: text).dropWhile isMarkupBlank = body at hbody ⊢
  subst hbody
  rfl

end Segment

/-- A text opens an operation, or it begins with a stretch that ends with the text or before a
separator. -/
theorem opens_or_stretch (text : List Char) : OpensOperation text ∨ IsStretch text ∨
    ∃ front c rest, text = front ++ c :: rest ∧ isSegmentChar c = false ∧ IsStretch front := by
  by_cases hopens : OpensOperation text
  · exact .inl hopens
  · have htext := List.takeWhile_append_dropWhile (p := isSegmentChar) (l := text)
    have hchars : ∀ c ∈ text.takeWhile isSegmentChar, isSegmentChar c = true :=
      fun c hc => List.mem_takeWhile_imp hc
    cases hrest : text.dropWhile isSegmentChar with
    | nil =>
        rw [hrest, List.append_nil] at htext
        exact .inr (.inl (isStretch_iff.mpr ⟨htext ▸ hchars, hopens⟩))
    | cons c rest =>
        have hc : isSegmentChar c = false := by
          have hhead := List.head?_dropWhile_not isSegmentChar text
          rw [hrest] at hhead
          simpa using hhead
        rw [hrest] at htext
        rw [← htext, opensOperation_append_cons hc] at hopens
        exact .inr (.inr ⟨_, c, rest, htext.symm, hc, isStretch_iff.mpr ⟨hchars, hopens⟩⟩)

namespace Path

open Segment

theorem Spells.gives {starts : Bool} {text : List Char} {alternates : List (List Segment)}
    (h : Spells starts text alternates) : Gives starts (splitAll text) alternates := by
  induction h with
  | operation hblanks hmodule =>
      rw [splitAll_operation hblanks hmodule]
      exact gives_singleton_iff.mpr ⟨_, rfl, rfl⟩
  | last htext hsegment =>
      rw [splitAll_last htext, gives_singleton_iff]
      exact ⟨_, rfl, ofRaw_name_iff.mpr (isSpelled_dropWhile_iff.mpr hsegment)⟩
  | slash htext hsegment _ ih =>
      rw [splitAll_append_cons htext rfl, if_pos rfl, gives_addName_iff (splitAll_fst_ne_nil _)]
      exact ⟨_, _, _, rfl, ofRaw_name_iff.mpr (isSpelled_dropWhile_iff.mpr hsegment), ih⟩
  | bar htext hsegment _ ih =>
      rw [splitAll_append_cons htext rfl, if_neg (by decide),
        gives_addAlternate_iff (splitAll_fst_ne_nil _)]
      exact ⟨_, _, rfl, ofRaw_name_iff.mpr (isSpelled_dropWhile_iff.mpr hsegment), ih⟩

/-- The alternates are what is cut off the text and read, whether an operation or a stretch stands
in front. -/
theorem spells_of_gives {starts : Bool} {text : List Char} {alternates : List (List Segment)}
    (h : Gives starts (splitAll text) alternates) : Spells starts text alternates := by
  rcases opens_or_stretch text with hopens | htext | ⟨front, c, rest, htext, hc, hfront⟩
  · obtain ⟨blanks, module, ⟨argument, rfl⟩, hblanks, hmodule⟩ := hopens
    rw [List.append_assoc, List.singleton_append] at h ⊢
    rw [splitAll_operation hblanks hmodule, gives_singleton_iff] at h
    obtain ⟨segment, rfl, hsegment⟩ := h
    cases hsegment
    exact .operation hblanks hmodule
  · rw [splitAll_last htext, gives_singleton_iff] at h
    obtain ⟨segment, rfl, hsegment⟩ := h
    exact .last htext (isSpelled_dropWhile_iff.mp (ofRaw_name_iff.mp hsegment))
  -- What stands behind the separator is shorter, and is read in the same way.
  · have hlength : rest.length < text.length := by
      rw [htext, List.length_append, List.length_cons]
      omega
    subst htext
    rw [splitAll_append_cons hfront hc] at h
    rcases isSegmentChar_eq_false_iff.mp hc with rfl | rfl
    · rw [if_pos rfl, gives_addName_iff (splitAll_fst_ne_nil _)] at h
      obtain ⟨segment, first, others, rfl, hsegment, hrest⟩ := h
      exact .slash hfront (isSpelled_dropWhile_iff.mp (ofRaw_name_iff.mp hsegment))
        (spells_of_gives hrest)
    · rw [if_neg (by decide), gives_addAlternate_iff (splitAll_fst_ne_nil _)] at h
      obtain ⟨segment, others, rfl, hsegment, hrest⟩ := h
      exact .bar hfront (isSpelled_dropWhile_iff.mp (ofRaw_name_iff.mp hsegment))
        (spells_of_gives hrest)
termination_by text.length

theorem Spells.cons_blank {starts : Bool} {text : List Char} {alternates : List (List Segment)}
    (h : Spells starts text alternates) {c : Char} (hc : isMarkupBlank c = true) :
    Spells starts (c :: text) alternates :=
  spells_of_gives (splitAll_cons_of_blank hc text ▸ h.gives)

theorem spells_iff {text : List Char} {alternates : List (List Segment)} :
    Spells true text alternates ↔
      ((splitAll text).1 :: (splitAll text).2).mapM ofRaws = .ok alternates := by
  rw [mapM_eq_ok_iff, ← gives_true_iff (splitAll_fst_ne_nil text)]
  exact ⟨Spells.gives, spells_of_gives⟩

section

variable {starts : Bool} {text : List Char} {first : List Segment}
  {alternates others : List (List Segment)}

theorem Spells.ne_nil (h : Spells starts text alternates) : alternates ≠ [] := by
  cases h <;> simp

theorem Spells.head_ne_nil (h : Spells starts text (first :: others)) : first ≠ [] := by
  cases h <;> simp

/-- A text that opens an operation spells it, and nothing else. -/
theorem Spells.exists_operation (h : Spells starts text alternates) (hopens : OpensOperation text) :
    ∃ module argument, alternates = [[.operation module argument]] := by
  cases h with
  | operation => exact ⟨_, _, rfl⟩
  | last htext => exact absurd hopens htext.no_operation
  | slash htext => exact absurd ((opensOperation_append_cons rfl).mp hopens) htext.no_operation
  | bar htext => exact absurd ((opensOperation_append_cons rfl).mp hopens) htext.no_operation

theorem Spells.trim_ne_nil (h : Spells starts text alternates) : trim text ≠ [] := by
  cases h with
  | operation => exact fun hnil => absurd (blank_of_trim_eq_nil hnil ':' (by simp)) (by decide)
  | last _ hsegment => exact hsegment.trim_ne_nil
  | slash => exact fun hnil => absurd (blank_of_trim_eq_nil hnil '/' (by simp)) (by decide)
  | bar => exact fun hnil => absurd (blank_of_trim_eq_nil hnil '|' (by simp)) (by decide)

end

/-- A path is read from a text when the text without the blanks around it spells the alternates
behind the mark of the scope. -/
theorem parseChars_eq_ok_iff {input : List Char} {path : Path} : parseChars input = .ok path ↔
    path.text = String.ofList (trim input) ∧
      ∃ body, DefinitionScope.Marks path.scope body (trim input) ∧
        Spells true body path.alternates := by
  obtain ⟨⟨scope, body⟩, hstrip⟩ : ∃ parts, DefinitionScope.strip (trim input) = parts := ⟨_, rfl⟩
  have hmarks := DefinitionScope.strip_eq_iff.mp hstrip
  unfold parseChars
  simp only [hstrip]
  constructor
  · intro h
    split at h
    next => cases h
    next =>
      split at h
      next alternates hread =>
        cases h
        exact ⟨rfl, body, hmarks, spells_iff.mpr hread⟩
      next => cases h
  · rintro ⟨htext, body', hmarks', hspells⟩
    have hsame := hstrip.symm.trans (DefinitionScope.strip_eq_iff.mpr hmarks')
    obtain ⟨rfl, rfl⟩ := Prod.mk.inj hsame
    rw [if_neg (by simpa using hspells.trim_ne_nil), spells_iff.mp hspells, ← htext]

end Path

end PageTemplate
