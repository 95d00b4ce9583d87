import PageTemplate.Proofs.Expression.Composition

/-! # Operators and modules of one name

An expression may begin with an operator, and each operator is also the name of a built-in module.
The operator is read before anything is evaluated, the module reads its argument when a path comes
to it. Both give the same values.
-/

namespace PageTemplate

open Text

namespace Expression

namespace Operator

/-- The word that the operator is written as, which is also the name of a module. -/
def word : Operator → String
  | .string => "string"
  | .path => "path"
  | .negation => "not"
  | .existence => "exists"

/-- The operator in front of what it is applied to. -/
def write (operator : Operator) (argument : String) : String := operator.word ++ ":" ++ argument

/-- The built-in module with the name of the operator. -/
def builtinModule : Operator → Module
  | .string => .string
  | .path => .path
  | .negation => .negation
  | .existence => .existence

theorem lookup_builtin (operator : Operator) :
    ModuleTable.builtin.lookup operator.word = some operator.builtinModule := by
  cases operator <;> rfl

theorem isModuleName_word (operator : Operator) : IsModuleName operator.word.toList :=
  ⟨by cases operator <;> decide, List.all_eq_true.mp (by cases operator <;> decide)⟩

theorem word_ne_keyword (operator : Operator) (scope : DefinitionScope) :
    operator.word ≠ scope.keyword := by
  cases operator <;> cases scope <;> decide

theorem toList_write (operator : Operator) (argument : String) :
    (operator.write argument).toList = operator.word.toList ++ ':' :: argument.toList :=
  Path.toList_colon operator.word argument

theorem strip?_write (operator : Operator) (argument : String) :
    strip? (operator.write argument).toList = some (operator, argument.toList) := by
  rw [toList_write]
  cases operator <;> rfl

theorem trimStart_write (operator : Operator) (argument : String) :
    trimStart (operator.write argument).toList = (operator.write argument).toList := by
  obtain ⟨c, word, hc⟩ := List.exists_cons_of_ne_nil operator.isModuleName_word.1
  rw [toList_write, hc, List.cons_append]
  exact trimStart_of_not_blank
    (not_blank_of_isModuleChar (operator.isModuleName_word.2 c (by simp [hc])))

end Operator

/-- Behind the word of an operator the argument is read as the operator asks. -/
theorem parse_write (operator : Operator) (argument : String) :
    parse (operator.write argument) =
      match operator with
      | .string => (StringPart.parse argument).map .string
      | .path => (Path.parse argument).map .path
      | .negation => (parse argument).map .negation
      | .existence => (Path.parse argument).map .existence := by
  have hoperator := operator.strip?_write argument
  rw [parse, parseChars]
  split
  case h_5 heq =>
    rw [operator.trimStart_write, hoperator] at heq
    cases heq
  all_goals next heq =>
    rw [operator.trimStart_write, hoperator] at heq
    cases heq
    rfl

/-- A text without blanks at its end, behind the word of an operator, is read as an operation when
a path is asked for. -/
theorem parse_path_write (operator : Operator) {argument : String}
    (hargument : ∀ c ∈ argument.toList.getLast?, isBlank c = false) :
    Path.parse (operator.write argument) =
      .ok ⟨operator.write argument, none, [[.operation operator.word argument]]⟩ :=
  Path.parse_operation operator.isModuleName_word operator.word_ne_keyword hargument

end Expression

namespace Environment

variable {env : Environment}

/-- What an expression gives when it is read from a text and evaluated. -/
def expressionValue (env : Environment) (text : String) : Except ExpressionError Value :=
  Expression.parse text >>= env.evaluate

theorem expressionValue_write (operator : Expression.Operator) (argument : String) :
    env.expressionValue (operator.write argument) =
      match operator with
      | .string => do
        let parts ← StringPart.parse argument
        return .string (← env.stringWith env.operation parts)
      | .path => env.valueOf none argument
      | .negation => do return .bool !(← env.expressionValue argument).isTruthy
      | .existence => do
        let path ← Path.parse argument
        return .bool (env.evaluateFrom none path).toOption.isSome := by
  rw [expressionValue, Expression.parse_write]
  cases operator with
  | string =>
      dsimp only
      cases StringPart.parse argument <;> rfl
  | path =>
      dsimp only [valueOf]
      cases Path.parse argument <;> rfl
  | negation =>
      dsimp only [expressionValue]
      cases Expression.parse argument <;> rfl
  | existence =>
      dsimp only
      cases Path.parse argument <;> rfl

/-- The empty text is no expression. -/
theorem toOption_expressionValue_nil {text : String} (h : text.toList = []) :
    (env.expressionValue text).toOption = none := by
  obtain ⟨fault, hfault⟩ := exists_error_of_toOption
    (show (Expression.parseChars []).toOption.isNone = true by decide +kernel)
  rw [expressionValue, Expression.parse, h, hfault]
  rfl

/-- An expression with an operator has the value that the module of the operator's name gives. -/
theorem toOption_expressionValue_write (operator : Expression.Operator)
    (hmodule : env.modules.lookup operator.word = some operator.builtinModule) {argument : String}
    (hargument : ∀ c ∈ argument.toList.getLast?, isBlank c = false) :
    (env.expressionValue (operator.write argument)).toOption =
      (env.operation operator.word argument none).toOption := by
  rw [expressionValue_write, operation_eq, hmodule]
  cases operator with
  | string => rfl
  | path => rfl
  | existence => rfl
  | negation =>
      dsimp only [Expression.Operator.builtinModule, runModule]
      split
      next hblank =>
        -- The module has nothing to negate, and the operator nothing to read.
        have hnil : argument.toList = [] := by
          rcases List.eq_nil_or_concat argument.toList with hnil | ⟨front, c, hlast⟩
          · exact hnil
          · have hc := blank_of_trim_eq_nil (List.isEmpty_iff.mp hblank) c (by simp [hlast])
            rw [hargument c (by simp [hlast])] at hc
            cases hc
        have hnone : (env.expressionValue argument).toOption = none :=
          toOption_expressionValue_nil hnil
        cases hvalue : env.expressionValue argument with
        | ok value =>
            rw [hvalue] at hnone
            cases hnone
        | error fault => rfl
      next =>
        dsimp only [expressionValue]
        cases Expression.parse argument <;> rfl

/-- The text of an operator with its argument is read as an operation when a path is asked for. Its
value is then the one that it has as an expression, and it is also the value behind a bar when the
name in front of the bar stands for nothing. -/
theorem expressionValue_operator_eq_module (env : Environment) (operator : Expression.Operator)
    (hmodule : env.modules.lookup operator.word = some operator.builtinModule) (argument : String)
    (hargument : ∀ c ∈ argument.toList.getLast?, isBlank c = false) :
    Expression.parse (Expression.Operator.path.write (operator.write argument)) =
        .ok (.path ⟨operator.write argument, none, [[.operation operator.word argument]]⟩) ∧
      (env.expressionValue (Expression.Operator.path.write (operator.write argument))).toOption =
        (env.expressionValue (operator.write argument)).toOption ∧
      ∀ name : String, Path.IsAlternate name [.name name] →
        (∃ fault, env.resolveRoot name = .error fault) →
        (env.expressionValue (name ++ " | " ++ operator.write argument)).toOption =
          (env.expressionValue (operator.write argument)).toOption := by
  have hparse := Expression.parse_path_write operator hargument
  have hvalue : (env.valueOf none (operator.write argument)).toOption =
      (env.expressionValue (operator.write argument)).toOption := by
    rw [toOption_expressionValue_write operator hmodule hargument]
    exact toOption_valueOf_operation hparse
  refine ⟨?_, ?_, fun name hname ⟨fault, hfault⟩ => ?_⟩
  · rw [Expression.parse_write]
    dsimp only
    rw [hparse]
    rfl
  · rw [expressionValue_write]
    exact hvalue
  · have hnone : (env.valueOf none name).toOption = none := by
      rw [valueOf_of_isAlternate hname, toOption_mapError, walk, step, stepTo, hfault]
      rfl
    have hread : env.expressionValue (name ++ " | " ++ operator.write argument) =
        env.valueOf none (name ++ " | " ++ operator.write argument) :=
      evaluate_parse_eq_valueOf (Path.trim_eq_of_parse (Path.parse_bar hname hparse))
        (Path.not_opensOperation_bar hname hparse)
    rw [hread, toOption_valueOf_bar hname hparse, hnone, hvalue]
    rfl

/-- With a title, it is false that there is none, whether an operator or a module says so. -/
theorem expressionValue_operator_eq_module_titled :
    titled.modules.lookup "not" = some .negation ∧
    (∀ c ∈ "exists:title".toList.getLast?, isBlank c = false) ∧
    Path.IsAlternate "missing" [.name "missing"] ∧
    (∃ fault, titled.resolveRoot "missing" = .error fault) ∧
    (titled.expressionValue "path:not:exists:title").toOption = some (.bool false) ∧
    (titled.expressionValue "missing | not:exists:title").toOption = some (.bool false) := by
  have hnot : titled.modules.lookup "not" = some .negation :=
    Expression.Operator.lookup_builtin .negation
  have hlast : ∀ c ∈ "exists:title".toList.getLast?, isBlank c = false := by
    intro c hc
    obtain rfl : 'e' = c := Option.some.inj hc
    rfl
  have hmissing : Path.IsAlternate "missing" [.name "missing"] :=
    ⟨eq_ok_of_toOption (by decide +kernel), by simp⟩
  have hunbound : ∃ fault, titled.resolveRoot "missing" = .error fault := ⟨_, rfl⟩
  have htitle : Path.parse "title" = .ok ⟨"title", none, [[.name "title"]]⟩ :=
    eq_ok_of_toOption (by decide +kernel)
  have hvalue : (titled.expressionValue (Expression.Operator.negation.write
      (Expression.Operator.existence.write "title"))).toOption = some (.bool false) := by
    rw [expressionValue_write, expressionValue_write]
    dsimp only
    rw [htitle]
    rfl
  obtain ⟨-, hpath, hbar⟩ := expressionValue_operator_eq_module titled .negation hnot
    (Expression.Operator.existence.write "title") hlast
  exact ⟨hnot, hlast, hmissing, hunbound, hpath.trans hvalue,
    (hbar "missing" hmissing hunbound).trans hvalue⟩

end Environment

end PageTemplate
