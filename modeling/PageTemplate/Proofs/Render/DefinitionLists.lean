import PageTemplate.Render.Directive
import PageTemplate.Proofs.Expression.PathGrammar
import PageTemplate.Proofs.Text.Doubling

/-! # Writing lists of definitions

An item is put into a list with its semicolons doubled. No item then runs into the next, since what
is read first decides: two semicolons stand for one, and a single one ends the item. A definition
is written as its keyword, its name and its expression, and it is read back if none of them can be
taken for another.
-/

namespace PageTemplate

namespace Directive

open Text

/-! ## Items -/

/-- The list of the items, with their semicolons doubled. -/
def writeItems (items : List String) : String :=
  "; ".intercalate (items.map fun item => String.ofList (doubled ';' item.toList))

theorem splitAll_cons_of_ne {c : Char} (h : c ≠ ';') (rest : List Char) :
    splitAll (c :: rest) = (c :: (splitAll rest).1, (splitAll rest).2) := by
  rw [splitAll]
  · exact fun rest heq => absurd heq h
  · exact h

/-- A written item goes on until its text ends, whatever stands behind it. -/
theorem splitAll_doubled_append (s rest : List Char) :
    splitAll (doubled ';' s ++ rest) = (s ++ (splitAll rest).1, (splitAll rest).2) := by
  induction s with
  | nil => rfl
  | cons c s ih =>
      by_cases hc : c = ';'
      · subst hc
        simp [splitAll, ih]
      · simp [hc, splitAll_cons_of_ne hc, ih]

theorem splitAll_join (item : List Char) (items : List (List Char)) :
    splitAll ([';', ' '].intercalate ((item :: items).map (doubled ';'))) =
      (item, items.map (' ' :: ·)) := by
  induction items generalizing item with
  | nil => simpa [splitAll] using splitAll_doubled_append item []
  | cons next items ih =>
      have hrest := ih next
      simp only [List.map_cons] at hrest ⊢
      rw [List.intercalate_cons_cons, List.append_assoc, splitAll_doubled_append]
      simp [splitAll, hrest]

/-- A list gives its items back, if none is empty and none has blanks around it. -/
theorem splitItems_writeItems {items : List String}
    (h : ∀ item ∈ items, item ≠ "" ∧ trim item.toList = item.toList) :
    splitItems (writeItems items) = items := by
  cases items with
  | nil => rfl
  | cons item items =>
      have hjoined : (writeItems (item :: items)).toList =
          [';', ' '].intercalate ((item.toList :: items.map String.toList).map (doubled ';')) := by
        simp [writeItems, String.toList_intercalate, Function.comp_def]
      have hspace : ∀ s : List Char, trim (' ' :: s) = trim s := trim_cons_of_blank (by decide)
      have htrimmed : (item.toList :: (items.map String.toList).map (' ' :: ·)).map trim =
          (item :: items).map String.toList := by
        simp only [List.map_cons, List.map_map, Function.comp_def, hspace,
          (h item List.mem_cons_self).2, List.cons.injEq, true_and]
        exact List.map_congr_left fun next hnext => (h next (List.mem_cons_of_mem _ hnext)).2
      have hfilled : ((item :: items).map String.toList).filter (!·.isEmpty) =
          (item :: items).map String.toList := by
        apply List.filter_eq_self.mpr
        intro s hs
        obtain ⟨next, hnext, rfl⟩ := List.mem_map.mp hs
        simpa using (h next hnext).1
      unfold splitItems
      rw [hjoined, splitAll_join]
      dsimp only
      rw [htrimmed, hfilled, List.map_map]
      simp [Function.comp_def]

/-! ## Definitions -/

/-- The item of a list that stands for the definition. -/
def Definition.write (d : Definition) : String :=
  d.scope.elim "" (·.keyword ++ " ") ++ d.target ++ " " ++ d.expression

/-- A definition whose parts can be told apart when it is written: the name is one word, and it is
no keyword unless one stands before it. A name may begin with a semicolon, or with a scope. -/
structure Definition.IsWritable (d : Definition) : Prop where
  target_ne : d.target ≠ ""
  target_word : ∀ c ∈ d.target.toList, isBlank c = false
  not_keyword : d.scope = none → ∀ scope : DefinitionScope, d.target ≠ scope.keyword
  expression_ne : d.expression ≠ ""
  expression_trimmed : trim d.expression.toList = d.expression.toList

/-- The first word of a text ends where the first blank stands. -/
theorem word_append {word : List Char} {c : Char} (hword : ∀ c ∈ word, isBlank c = false)
    (hc : isBlank c = true) (rest : List Char) :
    (word ++ c :: rest).takeWhile (!isBlank ·) = word ∧
      (word ++ c :: rest).dropWhile (!isBlank ·) = c :: rest := by
  have hall : ∀ c ∈ word, (!isBlank c) = true := by simpa using hword
  have hstop : (!isBlank c) = false := by simpa using hc
  refine ⟨takeWhile_append_cons hall hstop rest, ?_⟩
  rw [dropWhile_append_cons hstop, List.dropWhile_eq_nil_iff.mpr hall, List.nil_append]

/-- What stands between a name and an expression is a blank of markup, and then any blanks. -/
theorem nameAndExpression_eq_ok_iff {s : List Char} {name expression : String} :
    nameAndExpression s = .ok (name, expression) ↔
      ∃ c blanks, trim s = name.toList ++ c :: (blanks ++ expression.toList) ∧
        isMarkupBlank c = true ∧ (∀ c ∈ blanks, isBlank c) ∧
        name ≠ "" ∧ (∀ c ∈ name.toList, isBlank c = false) ∧
        expression ≠ "" ∧ trim expression.toList = expression.toList := by
  unfold nameAndExpression
  simp only [trim_dropWhile_isMarkupBlank]
  constructor
  · intro h
    split at h
    · cases h
    next hparts =>
      simp only [Bool.or_eq_true, Bool.not_eq_true', not_or, Bool.not_eq_true,
        Bool.not_eq_false, List.isEmpty_eq_false_iff] at hparts
      obtain ⟨⟨hname, hseparated⟩, hexpression⟩ := hparts
      cases h
      have htext := List.takeWhile_append_dropWhile (p := (!isBlank ·)) (l := trim s)
      cases hrest : (trim s).dropWhile (!isBlank ·) with
      | nil => simp [hrest] at hseparated
      | cons c rest =>
          have hc : isMarkupBlank c = true := by simpa [hrest] using hseparated
          rw [hrest] at htext hexpression
          have hbehind := trim_cons_of_blank (isBlank_of_isMarkupBlank hc) rest
          obtain ⟨front, back, hparts, hfront, hback⟩ := exists_trim rest
          have hnil : back = [] := by
            refine eq_nil_of_trimmed (s := (trim s).takeWhile (!isBlank ·) ++
              c :: (front ++ trim rest)) ?_ hback
            rw [List.append_assoc, List.cons_append, ← hparts, htext, trim_trim]
          rw [hbehind] at hexpression ⊢
          subst hnil
          refine ⟨c, front, ?_, hc, hfront, by simpa using hname, ?_, by simpa using hexpression,
            by simp [trim_trim]⟩
          · rw [String.toList_ofList, String.toList_ofList, ← List.append_nil (front ++ trim rest),
              ← hparts, htext]
          · intro d hd
            rw [String.toList_ofList] at hd
            simpa using List.mem_takeWhile_imp (p := (!isBlank ·)) hd
  · rintro ⟨c, blanks, htext, hc, hblanks, hname, hword, hexpression, htrimmed⟩
    obtain ⟨hhead, htail⟩ := word_append hword (isBlank_of_isMarkupBlank hc)
      (blanks ++ expression.toList)
    have hall : ∀ d ∈ c :: blanks, isBlank d = true :=
      List.forall_mem_cons.mpr ⟨isBlank_of_isMarkupBlank hc, hblanks⟩
    have hbehind := trim_blanks_append hall expression.toList
    rw [List.cons_append, htrimmed] at hbehind
    rw [htext, hhead, htail, hbehind]
    simp [hname, hexpression, hc]

/-- A keyword is one only if a blank of markup stands behind it. -/
theorem stripKeyword?_eq_some_iff {keyword : String} {s rest : List Char} :
    stripKeyword? keyword s = some rest ↔ ∃ c behind, s = keyword.toList ++ c :: behind ∧
      isMarkupBlank c = true ∧ rest = behind.dropWhile isMarkupBlank := by
  constructor
  · intro h
    unfold stripKeyword? at h
    split at h
    next c behind hstrip =>
      split at h
      next hc => exact ⟨c, behind, eq_append_of_strip? hstrip, hc, (Option.some.inj h).symm⟩
      next => cases h
    next => cases h
  · rintro ⟨c, behind, rfl, hc, rfl⟩
    simp [stripKeyword?, strip?_append, hc]

/-- Another word than the keyword is none. -/
theorem stripKeyword?_eq_none {keyword word : String} {c : Char} {rest : List Char}
    (hkeyword : ∀ c ∈ keyword.toList, isBlank c = false)
    (hword : ∀ c ∈ word.toList, isBlank c = false) (hc : isBlank c = true)
    (hne : word ≠ keyword) : stripKeyword? keyword (word.toList ++ c :: rest) = none := by
  apply Option.eq_none_iff_forall_ne_some.mpr
  intro behind hstrip
  obtain ⟨d, behind, heq, hd, -⟩ := stripKeyword?_eq_some_iff.mp hstrip
  have hsame := congrArg (List.takeWhile (!isBlank ·)) heq
  rw [(word_append hword hc _).1, (word_append hkeyword (isBlank_of_isMarkupBlank hd) _).1] at hsame
  exact hne (String.toList_inj.mp hsame)

theorem not_blank_of_mem_keyword (scope : DefinitionScope) :
    ∀ c ∈ scope.keyword.toList, isBlank c = false :=
  fun c hc => not_blank_of_isModuleChar ((isModuleName_keyword scope).2 c hc)

/-- A word in front of a trimmed text makes a trimmed text. -/
theorem trim_word_append {word rest : List Char} (hne : word ≠ [])
    (hword : ∀ c ∈ word, isBlank c = false) (hrest : rest ≠ []) (htrimmed : trim rest = rest) :
    trim (word ++ ' ' :: rest) = word ++ ' ' :: rest := by
  have hself : trim word = word := trim_eq_self_iff.mpr
    ⟨fun c hc => hword c (List.mem_of_mem_head? hc), fun c hc => hword c (List.mem_of_getLast? hc)⟩
  simpa using trim_append_append hne hself hrest htrimmed [' ']

namespace Definition.IsWritable

variable {d : Definition} (h : d.IsWritable)

include h

theorem trim_body : trim (d.target.toList ++ ' ' :: d.expression.toList) =
    d.target.toList ++ ' ' :: d.expression.toList :=
  trim_word_append (by simpa using h.target_ne) h.target_word (by simpa using h.expression_ne)
    h.expression_trimmed

theorem read_body : nameAndExpression (d.target.toList ++ ' ' :: d.expression.toList) =
    .ok (d.target, d.expression) :=
  nameAndExpression_eq_ok_iff.mpr ⟨' ', [], by simpa using h.trim_body, by decide, by simp,
    h.target_ne, h.target_word, h.expression_ne, h.expression_trimmed⟩

/-- A written definition has no blanks around it. -/
theorem trim_write : trim d.write.toList = d.write.toList := by
  have hbody := h.trim_body
  cases hscope : d.scope with
  | none => simpa [write, hscope] using hbody
  | some scope =>
      have hkeyword := (isModuleName_keyword scope).1
      simpa [write, hscope] using
        trim_word_append hkeyword (not_blank_of_mem_keyword scope) (by simp) hbody

end Definition.IsWritable

theorem readDefinition_of_keyword {item : String} {scope : DefinitionScope} {rest : List Char}
    (h : stripKeyword? scope.keyword (trim item.toList) = some rest) :
    readDefinition item = (nameAndExpression rest).map
      fun (target, expression) => ⟨some scope, target, expression⟩ := by
  unfold readDefinition
  cases scope with
  | localScope =>
      simp only [DefinitionScope.keyword] at h
      simp only [h]
      cases nameAndExpression rest <;> rfl
  | globalScope =>
      obtain ⟨c, behind, htext, hc, -⟩ := stripKeyword?_eq_some_iff.mp h
      have hnone : stripKeyword? "local" (trim item.toList) = none := by
        rw [htext]
        exact stripKeyword?_eq_none (not_blank_of_mem_keyword .localScope)
          (not_blank_of_mem_keyword .globalScope) (isBlank_of_isMarkupBlank hc) (by decide)
      simp only [DefinitionScope.keyword] at h
      simp only [hnone, h]
      cases nameAndExpression rest <;> rfl

theorem readDefinition_of_no_keyword {item : String}
    (h : ∀ scope : DefinitionScope, stripKeyword? scope.keyword (trim item.toList) = none) :
    readDefinition item = (nameAndExpression (trim item.toList)).map
      fun (target, expression) => ⟨none, target, expression⟩ := by
  have hlocal : stripKeyword? "local" (trim item.toList) = none := h .localScope
  have hglobal : stripKeyword? "global" (trim item.toList) = none := h .globalScope
  unfold readDefinition
  simp only [hlocal, hglobal]
  cases nameAndExpression (trim item.toList) <;> rfl

/-- A written definition is read back. -/
theorem readDefinition_write {d : Definition} (h : d.IsWritable) :
    readDefinition d.write = .ok d := by
  have htrim := h.trim_write
  have hread := h.read_body
  obtain ⟨scope, target, expression⟩ := d
  cases scope with
  | none =>
      have htext : trim (Definition.write ⟨none, target, expression⟩).toList =
          target.toList ++ ' ' :: expression.toList := by
        simpa [Definition.write] using htrim
      rw [readDefinition_of_no_keyword, htext, hread]
      · rfl
      · intro scope
        rw [htext]
        exact stripKeyword?_eq_none (not_blank_of_mem_keyword scope) h.target_word (by decide)
          (h.not_keyword rfl scope)
  | some scope =>
      have htext : trim (Definition.write ⟨some scope, target, expression⟩).toList =
          scope.keyword.toList ++ ' ' :: (target.toList ++ ' ' :: expression.toList) := by
        simpa [Definition.write] using htrim
      have hstrip : stripKeyword? scope.keyword
          (trim (Definition.write ⟨some scope, target, expression⟩).toList) =
            some (target.toList ++ ' ' :: expression.toList) := by
        refine stripKeyword?_eq_some_iff.mpr ⟨' ', _, htext, by decide, ?_⟩
        have hne : target.toList ≠ [] := by simpa using h.target_ne
        obtain ⟨c, rest, hc⟩ := List.exists_cons_of_ne_nil hne
        have hblank : isMarkupBlank c = false :=
          not_isMarkupBlank (h.target_word c (by simp [hc]))
        simp [hc, hblank]
      rw [readDefinition_of_keyword hstrip, hread]
      rfl

/-- Every definition that is read could have been written. -/
theorem isWritable_of_readDefinition {item : String} {d : Definition}
    (h : readDefinition item = .ok d) : d.IsWritable := by
  by_cases hkeyword : ∃ scope : DefinitionScope, ∃ rest,
      stripKeyword? scope.keyword (trim item.toList) = some rest
  · obtain ⟨scope, rest, hstrip⟩ := hkeyword
    rw [readDefinition_of_keyword hstrip] at h
    obtain ⟨⟨target, expression⟩, hread, rfl⟩ := exists_ok_of_map h
    obtain ⟨-, -, -, -, -, htarget, hword, hexpression, htrimmed⟩ :=
      nameAndExpression_eq_ok_iff.mp hread
    exact ⟨htarget, hword, nofun, hexpression, htrimmed⟩
  · have hnone : ∀ scope : DefinitionScope,
        stripKeyword? scope.keyword (trim item.toList) = none := fun scope =>
      Option.eq_none_iff_forall_ne_some.mpr fun rest hstrip => hkeyword ⟨scope, rest, hstrip⟩
    rw [readDefinition_of_no_keyword hnone] at h
    obtain ⟨⟨target, expression⟩, hread, rfl⟩ := exists_ok_of_map h
    obtain ⟨c, blanks, htext, hc, -, htarget, hword, hexpression, htrimmed⟩ :=
      nameAndExpression_eq_ok_iff.mp hread
    refine ⟨htarget, hword, fun _ scope hscope => ?_, hexpression, htrimmed⟩
    -- A keyword with the blank behind it would have been taken off.
    rw [trim_trim] at htext
    have hstrip := stripKeyword?_eq_some_iff.mpr ⟨c, _, htext, hc, rfl⟩
    dsimp only at hscope
    rw [hscope, hnone scope] at hstrip
    cases hstrip

/-- The list of the definitions. -/
def writeDefinitions (definitions : List Definition) : String :=
  writeItems (definitions.map (·.write))

/-- A list gives its definitions back, in order, exactly when each of them can be written. -/
theorem mapM_readDefinition_writeDefinitions_iff (definitions : List Definition) :
    (splitItems (writeDefinitions definitions)).mapM readDefinition = .ok definitions ↔
      ∀ d ∈ definitions, d.IsWritable := by
  constructor
  · intro h d hd
    obtain ⟨item, -, hread⟩ := exists_of_mem_right (mapM_eq_ok_iff.mp h) hd
    exact isWritable_of_readDefinition hread
  · intro h
    have hitems : splitItems (writeDefinitions definitions) = definitions.map (·.write) := by
      apply splitItems_writeItems
      intro item hitem
      obtain ⟨d, hd, rfl⟩ := List.mem_map.mp hitem
      exact ⟨by simp [Definition.write], (h d hd).trim_write⟩
    rw [hitems, mapM_eq_ok_iff, List.forall₂_map_left_iff, List.forall₂_same]
    exact fun d hd => readDefinition_write (h d hd)

end Directive

end PageTemplate
