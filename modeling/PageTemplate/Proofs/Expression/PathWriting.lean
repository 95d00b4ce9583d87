import PageTemplate.Proofs.Expression.PathGrammar

/-! # Writing paths

The alternates of a path are written with slashes and bars between their segments, behind the mark
of the scope; blanks of markup may stand around names. What is written is read back unless the name
of a segment begins like an operation itself. A text gives such a name only where a blank that
markup does not know stands in front of it: that blank hides the operation, and it is trimmed off
the name.
-/

namespace PageTemplate

open Text

/-- The word that is written for a segment that is no operation. -/
def Segment.word? : Segment → Option (List Char)
  | .name word => some word.toList
  | .dynamic word => some ('?' :: word.toList)
  | .operation .. => none

/-- A text that is written for the segment. Blanks may stand around a word. -/
inductive Segment.IsWritten : Segment → List Char → Prop
  | operation (module argument : String) :
    IsWritten (.operation module argument) (module.toList ++ ':' :: argument.toList)
  | word {segment : Segment} {word front back : List Char} (hword : segment.word? = some word)
    (hfront : ∀ c ∈ front, isMarkupBlank c = true) (hback : ∀ c ∈ back, isMarkupBlank c = true) :
    IsWritten segment (front ++ word ++ back)

namespace Path

/-- A text that is written for the alternates, with their segments between slashes and bars. -/
inductive Writes : List (List Segment) → List Char → Prop
  | last {segment : Segment} {text : List Char} (hsegment : segment.IsWritten text) :
    Writes [[segment]] text
  | slash {segment : Segment} {text rest : List Char} {first : List Segment}
    {others : List (List Segment)} (hsegment : segment.IsWritten text)
    (hrest : Writes (first :: others) rest) :
    Writes ((segment :: first) :: others) (text ++ '/' :: rest)
  | bar {segment : Segment} {text rest : List Char} {others : List (List Segment)}
    (hsegment : segment.IsWritten text) (hrest : Writes others rest) :
    Writes ([segment] :: others) (text ++ '|' :: rest)

/-- A text that is written for the path. -/
def IsWritten (path : Path) (text : List Char) : Prop :=
  ∃ body, Writes path.alternates body ∧ text = DefinitionScope.mark path.scope ++ body

/-- No name begins like an operation. -/
def NamesPlain (alternates : List (List Segment)) : Prop :=
  ∀ segments ∈ alternates, ∀ word, .name word ∈ segments → ¬OpensOperation word.toList

end Path

/-! ## Words -/

namespace Segment

variable {starts : Bool} {segment : Segment} {text : List Char}

theorem IsSpelled.word?_eq (h : segment.IsSpelled starts text) :
    segment.word? = some (trim text) := by
  rcases h with _ | ⟨hword, -⟩
  · simp [word?]
  · simp [word?, hword]

end Segment

theorem mem_of_mem_trim {c : Char} {text : List Char} (h : c ∈ trim text) : c ∈ text := by
  obtain ⟨front, back, htext, -⟩ := exists_trim text
  rw [htext]
  exact List.mem_append_left _ (List.mem_append_right _ h)

theorem opensOperation_append_of_blank {front : List Char}
    (hfront : ∀ c ∈ front, isMarkupBlank c = true) (text : List Char) :
    OpensOperation (front ++ text) ↔ OpensOperation text := by
  rw [opensOperation_iff, opensOperation_iff, List.dropWhile_append_of_pos hfront]

/-- A module name stands at the very start of a text that does not begin with a blank. -/
theorem opensOperation_cons_iff {c : Char} (hc : isBlank c = false) (rest : List Char) :
    OpensOperation (c :: rest) ↔ ∃ module, module ++ [':'] <+: c :: rest ∧ IsModuleName module := by
  constructor
  · rintro ⟨blanks, module, hstart, hblanks, hmodule⟩
    cases blanks with
    | nil => exact ⟨module, hstart, hmodule⟩
    | cons d blanks =>
        obtain rfl := (List.cons_prefix_cons.mp hstart).1
        have hblank := hblanks d List.mem_cons_self
        rw [not_isMarkupBlank hc] at hblank
        cases hblank
  · rintro ⟨module, hstart, hmodule⟩
    exact ⟨[], module, hstart, List.forall_mem_nil _, hmodule⟩

theorem blank_not_mem_operation {c : Char} (hc : isBlank c = true) {module : List Char}
    (hmodule : IsModuleName module) : c ∉ module ++ [':'] := by
  have hcolon : c ≠ ':' := by
    rintro rfl
    exact absurd hc (by decide)
  simp only [List.mem_append, List.mem_singleton, hcolon, or_false]
  intro hmem
  rw [not_blank_of_isModuleChar (hmodule.2 c hmem)] at hc
  cases hc

/-- Blanks around a word make no operation of it, and hide none. -/
theorem opensOperation_word_iff {front word back : List Char}
    (hfront : ∀ c ∈ front, isMarkupBlank c = true) (hback : ∀ c ∈ back, isMarkupBlank c = true)
    (hne : word ≠ []) (htrim : trim word = word) :
    OpensOperation (front ++ word ++ back) ↔ OpensOperation word := by
  obtain ⟨c, rest, rfl⟩ := List.exists_cons_of_ne_nil hne
  have hc := not_blank_of_trim_eq_cons htrim
  rw [List.append_assoc, opensOperation_append_of_blank hfront, List.cons_append,
    opensOperation_cons_iff hc, opensOperation_cons_iff hc]
  constructor
  · rintro ⟨module, hstart, hmodule⟩
    cases back with
    | nil => exact ⟨module, by simpa using hstart, hmodule⟩
    | cons d back =>
        have hd := blank_not_mem_operation (isBlank_of_isMarkupBlank (hback d List.mem_cons_self))
          hmodule
        rw [← List.cons_append] at hstart
        exact ⟨module, isPrefix_of_append_cons hd hstart, hmodule⟩
  · rintro ⟨module, hstart, hmodule⟩
    refine ⟨module, hstart.trans ?_, hmodule⟩
    rw [← List.cons_append]
    exact List.prefix_append _ _

theorem not_opensOperation_dynamic (word : List Char) : ¬OpensOperation ('?' :: word) := by
  rw [opensOperation_cons_iff (by decide)]
  rintro ⟨module, hstart, hne, hchars⟩
  obtain ⟨c, rest, rfl⟩ := List.exists_cons_of_ne_nil hne
  obtain rfl := (List.cons_prefix_cons.mp hstart).1
  exact absurd (hchars _ List.mem_cons_self) (by decide)

namespace Segment

variable {starts : Bool} {segment : Segment} {text written : List Char}

/-- What is written for a word is the word between blanks. -/
theorem isWritten_iff (hsegment : segment.IsSpelled starts text) : segment.IsWritten written ↔
    ∃ front back, written = front ++ trim text ++ back ∧
      (∀ c ∈ front, isMarkupBlank c = true) ∧ ∀ c ∈ back, isMarkupBlank c = true := by
  have hword := hsegment.word?_eq
  constructor
  · intro h
    cases h with
    | operation => cases hword
    | word hword' hfront hback =>
        obtain rfl := Option.some.inj (hword'.symm.trans hword)
        exact ⟨_, _, rfl, hfront, hback⟩
  · rintro ⟨front, back, rfl, hfront, hback⟩
    exact .word hword hfront hback

/-- A written word is spelled as it was. -/
theorem IsWritten.isSpelled (hsegment : segment.IsSpelled starts text)
    (h : segment.IsWritten written) : segment.IsSpelled starts written := by
  obtain ⟨front, back, rfl, hfront, hback⟩ := (isWritten_iff hsegment).mp h
  refine (isSpelled_congr ?_).mp hsegment
  rw [List.append_assoc, trim_blanks_append fun c hc => isBlank_of_isMarkupBlank (hfront c hc),
    trim_append_blanks fun c hc => isBlank_of_isMarkupBlank (hback c hc), trim_trim]

theorem IsWritten.separator_not_mem (htext : IsStretch text)
    (hsegment : segment.IsSpelled starts text) (h : segment.IsWritten written) {c : Char}
    (hc : isSegmentChar c = false) : c ∉ written := by
  obtain ⟨front, back, rfl, hfront, hback⟩ := (isWritten_iff hsegment).mp h
  have hblank := not_isMarkupBlank (not_blank_of_separator hc)
  have hfront' : c ∉ front := fun hmem => by simp [hfront c hmem] at hblank
  have hback' : c ∉ back := fun hmem => by simp [hback c hmem] at hblank
  have htrim : c ∉ trim text := fun hmem => by
    simp [htext.no_separator c (mem_of_mem_trim hmem)] at hc
  simp [hfront', hback', htrim]

/-- What is written for a word is a stretch, unless a name begins like an operation. -/
theorem IsWritten.isStretch_iff (htext : IsStretch text) (hsegment : segment.IsSpelled starts text)
    (h : segment.IsWritten written) : IsStretch written ↔
      ∀ word, segment = .name word → ¬OpensOperation word.toList := by
  have hslash : '/' ∉ written := h.separator_not_mem htext hsegment rfl
  have hbar : '|' ∉ written := h.separator_not_mem htext hsegment rfl
  have hstretch : IsStretch written ↔ ¬OpensOperation written :=
    ⟨fun h => h.no_operation, fun h => ⟨hslash, hbar, h⟩⟩
  obtain ⟨front, back, rfl, hfront, hback⟩ := (isWritten_iff hsegment).mp h
  rw [hstretch, opensOperation_word_iff hfront hback hsegment.trim_ne_nil (trim_trim text)]
  rcases hsegment with _ | ⟨hword, -⟩
  · simp
  · simp [hword, not_opensOperation_dynamic]

theorem IsWritten.trimStart (hsegment : segment.IsSpelled starts text)
    (h : segment.IsWritten written) : segment.IsWritten (trimStart written) := by
  obtain ⟨front, back, rfl, hfront, hback⟩ := (isWritten_iff hsegment).mp h
  refine (isWritten_iff hsegment).mpr ⟨[], back, ?_, List.forall_mem_nil _, hback⟩
  obtain ⟨c, rest, hword⟩ := List.exists_cons_of_ne_nil hsegment.trim_ne_nil
  rw [List.append_assoc,
    trimStart_append_of_blank fun c hc => isBlank_of_isMarkupBlank (hfront c hc), hword,
    List.cons_append, trimStart_of_not_blank (not_blank_of_trim_eq_cons hword)]
  rfl

theorem IsWritten.trimEnd (hsegment : segment.IsSpelled starts text)
    (h : segment.IsWritten written) : segment.IsWritten (trimEnd written) := by
  obtain ⟨front, back, rfl, hfront, hback⟩ := (isWritten_iff hsegment).mp h
  refine (isWritten_iff hsegment).mpr ⟨front, [], ?_, hfront, List.forall_mem_nil _⟩
  rw [trimEnd_append_of_blank fun c hc => isBlank_of_isMarkupBlank (hback c hc),
    trimEnd_append_of_trimmed hsegment.trim_ne_nil (trim_trim text), List.append_nil]

end Segment

/-! ## Reading what was written -/

namespace Path

variable {starts : Bool} {text written rest : List Char} {segment : Segment}
  {first : List Segment} {alternates others : List (List Segment)}

/-- One segment alone is an operation or a stretch. -/
theorem spells_singleton_iff (hword : segment.IsSpelled starts written) :
    Spells starts text [[segment]] ↔ IsStretch text ∧ segment.IsSpelled starts text := by
  constructor
  · intro h
    cases h with
    | operation => cases hword
    | last htext hsegment => exact ⟨htext, hsegment⟩
    | slash _ _ hrest => exact absurd rfl hrest.head_ne_nil
    | bar _ _ hrest => exact absurd rfl hrest.ne_nil
  · exact fun ⟨htext, hsegment⟩ => .last htext hsegment

theorem spells_slash_iff (htext : '/' ∉ text) (hfirst : first ≠ []) :
    Spells starts (text ++ '/' :: rest) ((segment :: first) :: others) ↔
      IsStretch text ∧ segment.IsSpelled starts text ∧ Spells false rest (first :: others) := by
  constructor
  · intro h
    generalize hwhole : text ++ '/' :: rest = whole at h
    cases h with
    | operation => exact absurd rfl hfirst
    | last => exact absurd rfl hfirst
    | bar => exact absurd rfl hfirst
    | slash hstretch hsegment hrest =>
        obtain ⟨rfl, rfl⟩ := (append_cons_inj htext hstretch.no_slash).mp hwhole
        exact ⟨hstretch, hsegment, hrest⟩
  · exact fun ⟨hstretch, hsegment, hrest⟩ => .slash hstretch hsegment hrest

theorem spells_bar_iff (htext : '|' ∉ text) (hothers : others ≠ []) :
    Spells starts (text ++ '|' :: rest) ([segment] :: others) ↔
      IsStretch text ∧ segment.IsSpelled starts text ∧ Spells true rest others := by
  constructor
  · intro h
    generalize hwhole : text ++ '|' :: rest = whole at h
    cases h with
    | operation => exact absurd rfl hothers
    | last => exact absurd rfl hothers
    | slash _ _ hrest => exact absurd rfl hrest.head_ne_nil
    | bar hstretch hsegment hrest =>
        obtain ⟨rfl, rfl⟩ := (append_cons_inj htext hstretch.no_bar).mp hwhole
        exact ⟨hstretch, hsegment, hrest⟩
  · exact fun ⟨hstretch, hsegment, hrest⟩ => .bar hstretch hsegment hrest

/-- No name begins like an operation when neither the first nor any other does. -/
theorem namesPlain_cons_iff : NamesPlain ((segment :: first) :: others) ↔
    (∀ word, segment = .name word → ¬OpensOperation word.toList) ∧
      NamesPlain (first :: others) := by
  rw [NamesPlain, NamesPlain, List.forall_mem_cons, List.forall_mem_cons]
  simp only [List.mem_cons, or_imp, forall_and, and_assoc, eq_comm (a := segment)]

theorem namesPlain_nil_cons_iff : NamesPlain ([] :: others) ↔ NamesPlain others := by
  simp [NamesPlain]

/-- A text spells the alternates, and another one is written for them. -/
inductive Rewrites : Bool → List Char → List (List Segment) → List Char → Prop
  | operation {starts : Bool} {blanks module argument : List Char}
    (hblanks : ∀ c ∈ blanks, isMarkupBlank c = true) (hmodule : IsModuleName module) :
    Rewrites starts (blanks ++ module ++ ':' :: argument)
      [[.operation (String.ofList module) (String.ofList argument)]] (module ++ ':' :: argument)
  | last {starts : Bool} {text written : List Char} {segment : Segment} (htext : IsStretch text)
    (hsegment : segment.IsSpelled starts text) (hword : segment.IsWritten written) :
    Rewrites starts text [[segment]] written
  | slash {starts : Bool} {text written rest rest' : List Char} {segment : Segment}
    {first : List Segment} {others : List (List Segment)} (htext : IsStretch text)
    (hsegment : segment.IsSpelled starts text) (hword : segment.IsWritten written)
    (hrest : Rewrites false rest (first :: others) rest') :
    Rewrites starts (text ++ '/' :: rest) ((segment :: first) :: others) (written ++ '/' :: rest')
  | bar {starts : Bool} {text written rest rest' : List Char} {segment : Segment}
    {others : List (List Segment)} (htext : IsStretch text)
    (hsegment : segment.IsSpelled starts text) (hword : segment.IsWritten written)
    (hrest : Rewrites true rest others rest') :
    Rewrites starts (text ++ '|' :: rest) ([segment] :: others) (written ++ '|' :: rest')

theorem Spells.rewrites (h : Spells starts text alternates) (hwritten : Writes alternates written) :
    Rewrites starts text alternates written := by
  induction h generalizing written with
  | operation hblanks hmodule =>
      rcases hwritten with ⟨hsegment⟩ | ⟨-, ⟨⟩⟩ | ⟨-, ⟨⟩⟩
      cases hsegment with
      | operation => simpa using Rewrites.operation hblanks hmodule
      | word hword => cases hword
  | last htext hsegment =>
      rcases hwritten with ⟨hword⟩ | ⟨-, ⟨⟩⟩ | ⟨-, ⟨⟩⟩
      exact .last htext hsegment hword
  | slash htext hsegment hrest ih =>
      cases hwritten with
      | last => exact absurd rfl hrest.head_ne_nil
      | bar => exact absurd rfl hrest.head_ne_nil
      | slash hword hwritten => exact .slash htext hsegment hword (ih hwritten)
  | bar htext hsegment hrest ih =>
      cases hwritten with
      | last => exact absurd rfl hrest.ne_nil
      | slash _ hwritten => cases hwritten
      | bar hword hwritten => exact .bar htext hsegment hword (ih hwritten)

namespace Rewrites

theorem ne_nil (h : Rewrites starts text alternates written) : alternates ≠ [] := by
  cases h <;> simp

theorem head_ne_nil (h : Rewrites starts text (first :: others) written) : first ≠ [] := by
  cases h <;> simp

/-- What is written spells the alternates as well, unless a name begins like an operation. -/
theorem spells_iff (h : Rewrites starts text alternates written) :
    Spells starts written alternates ↔ NamesPlain alternates := by
  induction h with
  | @operation starts _ module argument _ hmodule =>
      have hspells : Spells starts ([] ++ module ++ ':' :: argument) _ :=
        .operation (List.forall_mem_nil _) hmodule
      exact iff_of_true hspells (by simp [NamesPlain])
  | last htext hsegment hword =>
      rw [spells_singleton_iff hsegment, hword.isStretch_iff htext hsegment,
        and_iff_left (hword.isSpelled hsegment), namesPlain_cons_iff, namesPlain_nil_cons_iff]
      simp [NamesPlain]
  | slash htext hsegment hword hrest ih =>
      rw [spells_slash_iff (hword.separator_not_mem htext hsegment rfl) hrest.head_ne_nil,
        hword.isStretch_iff htext hsegment, and_iff_right (hword.isSpelled hsegment), ih,
        namesPlain_cons_iff]
  | bar htext hsegment hword hrest ih =>
      rw [spells_bar_iff (hword.separator_not_mem htext hsegment rfl) hrest.ne_nil,
        hword.isStretch_iff htext hsegment, and_iff_right (hword.isSpelled hsegment), ih,
        namesPlain_cons_iff, namesPlain_nil_cons_iff]

/-- Blanks may be left out at the start of what is written. -/
theorem trimStart (h : Rewrites starts text alternates written) :
    Rewrites starts text alternates (trimStart written) := by
  cases h with
  | @operation _ _ module _ hblanks hmodule =>
      obtain ⟨c, word, rfl⟩ := List.exists_cons_of_ne_nil hmodule.1
      have hc := not_blank_of_isModuleChar (hmodule.2 c List.mem_cons_self)
      rw [List.cons_append, trimStart_of_not_blank hc]
      exact .operation hblanks hmodule
  | last htext hsegment hword => exact .last htext hsegment (hword.trimStart hsegment)
  | slash htext hsegment hword hrest =>
      rw [trimStart_append_cons (by decide)]
      exact .slash htext hsegment (hword.trimStart hsegment) hrest
  | bar htext hsegment hword hrest =>
      rw [trimStart_append_cons (by decide)]
      exact .bar htext hsegment (hword.trimStart hsegment) hrest

/-- Blanks may be left out at the end of what is written. The argument of an operation has none
there when the text that spells it has none. -/
theorem trimEnd (h : Rewrites starts text alternates written) (htrim : trimEnd text = text) :
    Rewrites starts text alternates (trimEnd written) := by
  induction h with
  | operation hblanks hmodule =>
      rw [trimEnd_append_cons (by decide)] at htrim ⊢
      rw [List.append_cancel_left htrim]
      exact .operation hblanks hmodule
  | last htext hsegment hword => exact .last htext hsegment (hword.trimEnd hsegment)
  | slash htext hsegment hword _ ih =>
      rw [trimEnd_append_cons (by decide)] at htrim ⊢
      exact .slash htext hsegment hword (ih (List.cons.inj (List.append_cancel_left htrim)).2)
  | bar htext hsegment hword _ ih =>
      rw [trimEnd_append_cons (by decide)] at htrim ⊢
      exact .bar htext hsegment hword (ih (List.cons.inj (List.append_cancel_left htrim)).2)

end Rewrites

/-! ## Marks of scopes -/

theorem trimEnd_of_marks {scope : Option DefinitionScope} {body : List Char}
    (h : DefinitionScope.Marks scope body text) (htrim : trimEnd text = text) :
    trimEnd body = body := by
  obtain ⟨rfl, -⟩ := h
  cases scope with
  | none => exact htrim
  | some scope =>
      rw [DefinitionScope.mark, List.append_assoc, List.singleton_append,
        trimEnd_append_cons (by decide)] at htrim
      exact (List.cons.inj (List.append_cancel_left htrim)).2

namespace Rewrites

variable {body : List Char}

theorem exists_trim_mark_append (h : Rewrites starts body alternates written)
    (htrim : Text.trimEnd body = body) (scope : Option DefinitionScope) :
    ∃ rest, trim (DefinitionScope.mark scope ++ written) = DefinitionScope.mark scope ++ rest ∧
      Rewrites starts body alternates rest := by
  cases scope with
  | none => exact ⟨trim written, rfl, h.trimStart.trimEnd htrim⟩
  | some scope =>
      have hkeyword : Text.trimStart scope.keyword.toList = scope.keyword.toList := by
        cases scope <;> decide
      refine ⟨Text.trimEnd written, ?_, h.trimEnd htrim⟩
      rw [DefinitionScope.mark, List.append_assoc, List.append_assoc, List.singleton_append,
        List.singleton_append, trim, trimStart_append_cons (by decide),
        trimEnd_append_cons (by decide), hkeyword]

/-- When the text begins with no mark, what is written begins with none. -/
theorem not_mark (h : Rewrites starts body alternates written)
    (hspells : Spells starts written alternates) (htrim : trim body = body)
    (hbody : ∀ scope : DefinitionScope, ¬DefinitionScope.mark (some scope) <+: body)
    (scope : DefinitionScope) : ¬DefinitionScope.mark (some scope) <+: written := by
  intro hmark
  obtain ⟨module, argument, rfl⟩ := hspells.exists_operation (opensOperation_of_mark hmark)
  cases h with
  | @operation _ blanks _ _ hblanks =>
      cases blanks with
      | nil => exact hbody scope hmark
      | cons c blanks =>
          have hc := (trim_eq_self_iff.mp htrim).1 c rfl
          rw [isBlank_of_isMarkupBlank (hblanks c List.mem_cons_self)] at hc
          cases hc
  | last _ hsegment => cases hsegment
  | slash _ _ _ hrest => exact absurd rfl hrest.head_ne_nil
  | bar _ _ _ hrest => exact absurd rfl hrest.ne_nil

theorem marks (h : Rewrites starts body alternates written)
    (hspells : Spells starts written alternates) {scope : Option DefinitionScope}
    (hmarks : DefinitionScope.Marks scope body text) (htrim : trim text = text) :
    DefinitionScope.Marks scope written (DefinitionScope.mark scope ++ written) := by
  obtain ⟨rfl, hnone⟩ := hmarks
  refine ⟨rfl, ?_⟩
  rintro rfl
  exact h.not_mark hspells htrim (hnone rfl)

end Rewrites

/-- A path that was read and written is the same path again exactly when no name in it begins like
an operation. -/
theorem exists_parseChars_iff {input text : List Char} {path : Path}
    (h : parseChars input = .ok path) (hwritten : path.IsWritten text) :
    (∃ again, parseChars text = .ok again ∧ again.scope = path.scope ∧
      again.alternates = path.alternates) ↔ NamesPlain path.alternates := by
  obtain ⟨-, body, hmarks, hspells⟩ := parseChars_eq_ok_iff.mp h
  obtain ⟨written, hwrites, rfl⟩ := hwritten
  have htrim := trimEnd_of_marks hmarks (trimEnd_trimEnd _)
  obtain ⟨rest, hrest, hrewrites⟩ :=
    (hspells.rewrites hwrites).exists_trim_mark_append htrim path.scope
  rw [← hrewrites.spells_iff]
  constructor
  -- The text that is written has one mark only, so that the body behind it is the one written.
  · rintro ⟨again, hagain, hscope, halternates⟩
    obtain ⟨-, body', ⟨htext, -⟩, hspells'⟩ := parseChars_eq_ok_iff.mp hagain
    rw [hrest, hscope] at htext
    rwa [List.append_cancel_left htext, ← halternates]
  -- Without a scope it must not begin with a mark, which is why that is asked of the body.
  · intro hspells'
    have hmarks' := hrest ▸ hrewrites.marks hspells' hmarks (trim_trim input)
    exact ⟨⟨_, path.scope, path.alternates⟩,
      parseChars_eq_ok_iff.mpr ⟨rfl, rest, hmarks', hspells'⟩, rfl, rfl⟩

/-- A text is read as a path exactly when, without the blanks around it, it spells the alternates
behind the mark of the scope. What is written for the path is read as the same path again exactly
when no name begins like an operation. -/
theorem parse_eq_ok_iff_and_parse_written_iff (input : String) (path : Path) :
    (parse input = .ok path ↔ path.text = trimmed input ∧
      ∃ body, DefinitionScope.Marks path.scope body (trim input.toList) ∧
        Spells true body path.alternates) ∧
    (parse input = .ok path → ∀ text : String, path.IsWritten text.toList →
      ((∃ again, parse text = .ok again ∧ again.scope = path.scope ∧
        again.alternates = path.alternates) ↔ NamesPlain path.alternates)) :=
  ⟨parseChars_eq_ok_iff, fun h _ hwritten => exists_parseChars_iff h hwritten⟩

/-- With a scope, a dynamic segment, an operation that takes a slash and a bar into its argument,
and blanks around names. -/
theorem parse_written_local : ∃ path, parse " local: a / ?b |string:x/y|z" = .ok path ∧
    path.IsWritten "local:a\t/?b|string:x/y|z".toList ∧
    ∃ again, parse "local:a\t/?b|string:x/y|z" = .ok again ∧ again.scope = path.scope ∧
      again.alternates = path.alternates := by
  have hread : parse " local: a / ?b |string:x/y|z" = .ok
      ⟨"local: a / ?b |string:x/y|z", some .localScope,
        [[.name "a", .dynamic "b"], [.operation "string" "x/y|z"]]⟩ :=
    eq_ok_of_toOption (by decide +kernel)
  have hwritten : IsWritten
      ⟨"local: a / ?b |string:x/y|z", some .localScope,
        [[.name "a", .dynamic "b"], [.operation "string" "x/y|z"]]⟩
      "local:a\t/?b|string:x/y|z".toList := by
    have hname : Segment.IsWritten (.name "a") ([] ++ "a".toList ++ ['\t']) :=
      .word rfl (List.forall_mem_nil _) (List.forall_mem_singleton.mpr rfl)
    have hdynamic : Segment.IsWritten (.dynamic "b") ([] ++ '?' :: "b".toList ++ []) :=
      .word rfl (List.forall_mem_nil _) (List.forall_mem_nil _)
    exact ⟨_, .slash hname (.bar hdynamic (.last (.operation "string" "x/y|z"))), by decide⟩
  have hplain : NamesPlain [[.name "a", .dynamic "b"], [.operation "string" "x/y|z"]] := by
    simp [NamesPlain]
    decide
  exact ⟨_, hread, hwritten,
    ((parse_eq_ok_iff_and_parse_written_iff _ _).2 hread _ hwritten).mpr hplain⟩

/-- A blank that is no blank of markup hides an operation, and the name that is read begins like
one. -/
theorem not_reread_of_hidden_operation : ∃ path, parse "a/\u00a0b:c" = .ok path ∧
    path.IsWritten "a/b:c".toList ∧ ¬∃ again, parse "a/b:c" = .ok again ∧
      again.scope = path.scope ∧ again.alternates = path.alternates := by
  have hread : parse "a/\u00a0b:c" = .ok ⟨"a/\u00a0b:c", none, [[.name "a", .name "b:c"]]⟩ :=
    eq_ok_of_toOption (by decide +kernel)
  have hreread : parse "a/b:c" = .ok ⟨"a/b:c", none, [[.name "a", .operation "b" "c"]]⟩ :=
    eq_ok_of_toOption (by decide +kernel)
  have hwritten : IsWritten ⟨"a/\u00a0b:c", none, [[.name "a", .name "b:c"]]⟩ "a/b:c".toList := by
    have hfirst : Segment.IsWritten (.name "a") ([] ++ "a".toList ++ []) :=
      .word rfl (List.forall_mem_nil _) (List.forall_mem_nil _)
    have hsecond : Segment.IsWritten (.name "b:c") ([] ++ "b:c".toList ++ []) :=
      .word rfl (List.forall_mem_nil _) (List.forall_mem_nil _)
    exact ⟨_, .slash hfirst (.last hsecond), by decide⟩
  refine ⟨_, hread, hwritten, ?_⟩
  rintro ⟨again, hagain, -, halternates⟩
  obtain rfl := Except.ok.inj (hagain.symm.trans hreread)
  revert halternates
  decide

end Path

end PageTemplate
