import PageTemplate.Proofs.Expression.Alternatives
import PageTemplate.Proofs.Expression.Operations

/-! # Composition of paths

Behind a slash a path goes on where the text in front of the slash leads. It makes no difference
whether the rest is written there, is handed to the module that reads paths, or is evaluated from
the value that the first part leads to.
-/

namespace PageTemplate

open Text

/-! ## Texts in front of other texts -/

namespace Path

theorem isSpelled_of_starts {starts : Bool} {text : List Char} {segment : Segment}
    (h : segment.IsSpelled true text) : segment.IsSpelled starts text := by
  rcases h with ⟨hne, hmark⟩ | ⟨-, -, hstarts⟩
  · exact .name hne hmark
  · cases hstarts

/-- What starts an alternate can also stand behind a slash. -/
theorem Spells.of_starts {starts : Bool} {text : List Char} {alternates : List (List Segment)}
    (h : Spells true text alternates) : Spells starts text alternates := by
  cases h with
  | operation hblanks hmodule => exact .operation hblanks hmodule
  | last htext hsegment => exact .last htext (isSpelled_of_starts hsegment)
  | slash htext hsegment hrest => exact .slash htext (isSpelled_of_starts hsegment) hrest
  | bar htext hsegment hrest => exact .bar htext (isSpelled_of_starts hsegment) hrest

/-- An alternate without an operation goes on behind a slash. -/
theorem Spells.append_slash {starts : Bool} {text rest : List Char} {segments first : List Segment}
    {others : List (List Segment)} (h : Spells starts text [segments])
    (hoperation : ∀ module argument, .operation module argument ∉ segments)
    (hrest : Spells false rest (first :: others)) :
    Spells starts (text ++ '/' :: rest) ((segments ++ first) :: others) := by
  generalize halternates : [segments] = alternates at h
  induction h generalizing segments with
  | operation =>
      obtain rfl := List.singleton_inj.mp halternates
      exact absurd List.mem_cons_self (hoperation _ _)
  | last htext hsegment =>
      obtain rfl := List.singleton_inj.mp halternates
      exact .slash htext hsegment hrest
  | slash htext hsegment _ ih =>
      obtain ⟨rfl, rfl⟩ := List.cons.inj halternates
      have hfirst := ih (fun module argument hmem =>
        hoperation module argument (List.mem_cons_of_mem _ hmem)) rfl
      rw [List.append_assoc, List.cons_append]
      exact .slash htext hsegment hfirst
  | bar _ _ hothers =>
      obtain ⟨-, rfl⟩ := List.cons.inj halternates
      exact absurd rfl hothers.ne_nil

theorem toList_slash (text rest : String) :
    (text ++ "/" ++ rest).toList = text.toList ++ '/' :: rest.toList := by
  simp

theorem toList_colon (module argument : String) :
    (module ++ ":" ++ argument).toList = module.toList ++ ':' :: argument.toList := by
  simp

theorem trim_ne_nil_of_parse {text : String} {alternates : List (List Segment)}
    (h : parse text = .ok ⟨text, none, alternates⟩) : text.toList ≠ [] := by
  have hne := (spells_of_parse h).trim_ne_nil
  rwa [trim_eq_of_parse h] at hne

section

variable {text rest : String} {segments first : List Segment} {others : List (List Segment)}
  (h : IsAlternate text segments)

include h

theorem trim_append_rest {alternates : List (List Segment)} (separator : String)
    (hrest : parse rest = .ok ⟨rest, none, alternates⟩) :
    trim (text ++ separator ++ rest).toList = (text ++ separator ++ rest).toList := by
  rw [String.toList_append, String.toList_append]
  exact trim_append_append (trim_ne_nil_of_parse h.parse_eq) h.trim_eq (trim_ne_nil_of_parse hrest)
    (trim_eq_of_parse hrest) _

theorem not_opensOperation_slash (rest : String) :
    ¬OpensOperation (text ++ "/" ++ rest).toList := by
  rw [toList_slash, opensOperation_append_cons rfl]
  exact h.not_opensOperation

/-- Two texts with a slash between them are read as one alternate. -/
theorem parse_slash (hrest : parse rest = .ok ⟨rest, none, first :: others⟩) :
    parse (text ++ "/" ++ rest) =
      .ok ⟨text ++ "/" ++ rest, none, (segments ++ first) :: others⟩ := by
  refine parse_of_spells (trim_append_rest h "/" hrest)
    (fun _ hmark => not_opensOperation_slash h rest (opensOperation_of_mark hmark)) ?_
  rw [toList_slash]
  exact h.spells.append_slash h.no_operation (spells_of_parse hrest).of_starts

theorem spells_bar (hrest : parse rest = .ok ⟨rest, none, others⟩) :
    Spells true (text ++ " | " ++ rest).toList (segments :: others) := by
  have htext : (text ++ " | " ++ rest).toList =
      text.toList ++ ' ' :: '|' :: ' ' :: rest.toList := by simp
  rw [htext]
  exact h.spells.append_bar h.no_operation (spells_of_parse hrest)

theorem not_opensOperation_bar (hrest : parse rest = .ok ⟨rest, none, others⟩) :
    ¬OpensOperation (text ++ " | " ++ rest).toList := by
  intro hopens
  obtain ⟨module, argument, hone⟩ := (spells_bar h hrest).exists_operation hopens
  obtain ⟨rfl, -⟩ := List.cons.inj hone
  exact h.no_operation module argument List.mem_cons_self

/-- Behind a bar stands what is tried after the text in front of it. -/
theorem parse_bar (hrest : parse rest = .ok ⟨rest, none, others⟩) :
    parse (text ++ " | " ++ rest) = .ok ⟨text ++ " | " ++ rest, none, segments :: others⟩ :=
  parse_of_spells (trim_append_rest h " | " hrest)
    (fun _ hmark => not_opensOperation_bar h hrest (opensOperation_of_mark hmark))
    (spells_bar h hrest)

end

theorem not_blank_getLast?_colon {back : List Char}
    (h : ∀ c ∈ back.getLast?, isBlank c = false) (front : List Char) :
    ∀ c ∈ (front ++ ':' :: back).getLast?, isBlank c = false := by
  intro c hc
  rw [List.getLast?_append_cons, List.getLast?_cons] at hc
  cases hlast : back.getLast? with
  | none =>
      rw [hlast] at hc
      obtain rfl : ':' = c := Option.some.inj hc
      rfl
  | some last =>
      rw [hlast] at hc
      obtain rfl : last = c := Option.some.inj hc
      exact h last hlast

/-- A module name, a colon and any argument are read as an operation. The name of a scope is not
taken for a module, and blanks at the end would not belong to the argument. -/
theorem parse_operation {module argument : String} (hmodule : IsModuleName module.toList)
    (hscope : ∀ scope : DefinitionScope, module ≠ scope.keyword)
    (hargument : ∀ c ∈ argument.toList.getLast?, isBlank c = false) :
    parse (module ++ ":" ++ argument) =
      .ok ⟨module ++ ":" ++ argument, none, [[.operation module argument]]⟩ := by
  have hcolon : ∀ {name : List Char}, IsModuleName name → ':' ∉ name :=
    fun hname hmem => absurd (hname.2 _ hmem) (by decide)
  refine parse_of_spells (trim_eq_self_iff.mpr ⟨?_, ?_⟩) (fun scope hmark => ?_) ?_
  · obtain ⟨c, rest, hc⟩ := List.exists_cons_of_ne_nil hmodule.1
    have hblank := not_blank_of_isModuleChar (hmodule.2 c (by simp [hc]))
    simpa [toList_colon, hc] using hblank
  · rw [toList_colon]
    exact not_blank_getLast?_colon hargument module.toList
  · obtain ⟨rest, hrest⟩ := hmark
    rw [toList_colon, DefinitionScope.mark, List.append_assoc, List.singleton_append,
      append_cons_inj (hcolon (isModuleName_keyword scope)) (hcolon hmodule)] at hrest
    exact hscope scope (String.toList_inj.mp hrest.1.symm)
  · rw [toList_colon]
    have hspells : Spells true ([] ++ module.toList ++ ':' :: argument.toList) _ :=
      .operation (List.forall_mem_nil _) hmodule
    simpa using hspells

end Path

/-! ## Values on the way -/

namespace Environment

variable {env : Environment} {operate : Operate}

theorem walk_append_of_some (value : Value) (first second : List Segment) :
    env.walk operate (some value) (first ++ second) =
      env.walk operate (some value) first >>= fun next => env.walk operate (some next) second := by
  induction first generalizing value with
  | nil => rfl
  | cons segment first ih =>
      rw [List.cons_append, walk, walk]
      cases env.step operate (some value) segment with
      | error fault => rfl
      | ok next => exact ih next

/-- A walk along two lists of segments goes on from the value that the first one leads to. -/
theorem walk_append {first : List Segment} (hne : first ≠ []) (current : Option Value)
    (second : List Segment) : env.walk operate current (first ++ second) =
      env.walk operate current first >>= fun next => env.walk operate (some next) second := by
  obtain ⟨segment, first, rfl⟩ := List.exists_cons_of_ne_nil hne
  rw [List.cons_append, walk, walk]
  cases env.step operate current segment with
  | error fault => rfl
  | ok next => exact walk_append_of_some next first second

variable {start : Option Value}

/-- Behind a slash, the rest is evaluated from the value of the text in front. -/
theorem toOption_valueOf_slash {text rest : String} {segments first : List Segment}
    (h : Path.IsAlternate text segments) (hrest : Path.parse rest = .ok ⟨rest, none, [first]⟩) :
    (env.valueOf start (text ++ "/" ++ rest)).toOption =
      (env.valueOf start text).toOption.bind fun value =>
        (env.valueOf (some value) rest).toOption := by
  rw [valueOf_of_parse (Path.parse_slash h hrest), valueOf_of_isAlternate h]
  simp only [valueOf_of_parse hrest, toOption_mapError]
  rw [walk_append h.spells.head_ne_nil]
  cases env.walk env.operation start segments <;> rfl

/-- Behind a bar, the rest is evaluated when the text in front has no value. -/
theorem toOption_valueOf_bar {text rest : String} {segments : List Segment}
    {others : List (List Segment)} (h : Path.IsAlternate text segments)
    (hrest : Path.parse rest = .ok ⟨rest, none, others⟩) :
    (env.valueOf start (text ++ " | " ++ rest)).toOption =
      (env.valueOf start text).toOption.or (env.valueOf start rest).toOption := by
  rw [valueOf_of_isAlternate h, valueOf, valueOf, Path.parse_bar h hrest, hrest]
  show (env.evaluateFrom start _).toOption = Option.or _ (env.evaluateFrom start _).toOption
  rw [evaluateFrom, evaluateFrom, pathWith, pathWith, tryAlternates]
  simp only [toOption_mapError]
  cases env.walk env.operation start segments with
  | ok value => rfl
  | error fault => exact toOption_mapError _ _

/-- An operation that stands alone has the value that its module gives. -/
theorem toOption_valueOf_operation {module argument : String}
    (h : Path.parse (module ++ ":" ++ argument) =
      .ok ⟨module ++ ":" ++ argument, none, [[.operation module argument]]⟩) :
    (env.valueOf start (module ++ ":" ++ argument)).toOption =
      (env.operation module argument start).toOption := by
  rw [valueOf_of_parse h, toOption_mapError, walk, step]
  cases env.operation module argument start <;> rfl

/-- The module that reads paths goes on from the value so far. -/
theorem operation_path (hmodule : env.modules.lookup "path" = some .path) (argument : String)
    (current : Option Value) :
    env.operation "path" argument current = env.valueOf current argument := by
  rw [operation_eq, hmodule]
  rfl

/-- When a path leads to a value, what follows it behind a slash is evaluated from that value,
whether it is written there or handed to the module `path`. When the path leads nowhere, neither
does what begins with it. As expressions the texts have the same values. -/
theorem valueOf_composed (env : Environment) (start : Option Value)
    (hmodule : env.modules.lookup "path" = some .path) {text rest : String}
    {segments first : List Segment} (h : Path.IsAlternate text segments)
    (hrest : Path.parse rest = .ok ⟨rest, none, [first]⟩) :
    (∀ value, env.valueOf start text = .ok value →
      (env.valueOf start (text ++ "/" ++ rest)).toOption =
          (env.valueOf (some value) rest).toOption ∧
        (env.valueOf start (text ++ "/path:" ++ rest)).toOption =
          (env.valueOf (some value) rest).toOption) ∧
    (∀ fault, env.valueOf start text = .error fault →
      (∃ fault', env.valueOf start (text ++ "/" ++ rest) = .error fault') ∧
        ∃ fault', env.valueOf start (text ++ "/path:" ++ rest) = .error fault') ∧
    ∀ written ∈ [text, text ++ "/" ++ rest, text ++ "/path:" ++ rest],
      Expression.parse written >>= env.evaluate = env.valueOf none written := by
  have hnested : Path.parse ("path" ++ ":" ++ rest) =
      .ok ⟨"path" ++ ":" ++ rest, none, [[.operation "path" rest]]⟩ :=
    Path.parse_operation ⟨by decide, List.all_eq_true.mp (by decide)⟩
      (fun scope => by cases scope <;> decide)
      (trim_eq_self_iff.mp (Path.trim_eq_of_parse hrest)).2
  have hwritten : text ++ "/path:" ++ rest = text ++ "/" ++ ("path" ++ ":" ++ rest) := by
    simp [← String.toList_inj]
  have hslash : (env.valueOf start (text ++ "/" ++ rest)).toOption =
      (env.valueOf start text).toOption.bind fun value =>
        (env.valueOf (some value) rest).toOption := toOption_valueOf_slash h hrest
  have hpath : (env.valueOf start (text ++ "/path:" ++ rest)).toOption =
      (env.valueOf start text).toOption.bind fun value =>
        (env.valueOf (some value) rest).toOption := by
    rw [hwritten, toOption_valueOf_slash h hnested]
    simp only [toOption_valueOf_operation hnested, operation_path hmodule]
  refine ⟨fun value hvalue => ?_, fun fault hfault => ?_, ?_⟩
  · rw [hslash, hpath, hvalue]
    exact ⟨rfl, rfl⟩
  · rw [hfault] at hslash hpath
    exact ⟨exists_error_of_toOption (by rw [hslash]; rfl),
      exists_error_of_toOption (by rw [hpath]; rfl)⟩
  · rw [hwritten]
    simp only [List.forall_mem_cons]
    refine ⟨?_, ?_, ?_, List.forall_mem_nil _⟩
    · exact evaluate_parse_eq_valueOf h.trim_eq h.not_opensOperation
    · exact evaluate_parse_eq_valueOf (Path.trim_eq_of_parse (Path.parse_slash h hrest))
        (Path.not_opensOperation_slash h _)
    · exact evaluate_parse_eq_valueOf (Path.trim_eq_of_parse (Path.parse_slash h hnested))
        (Path.not_opensOperation_slash h _)

/-- An environment with a menu, and the name of a drink on it. -/
def serving : Environment where
  scope := {}
  globals :=
    { root := .map [("menu", .map [("tea", .int 3)])], bindings := [("drink", .string "tea")] }

/-- The rest looks for the drink on the menu and turns its truth around. -/
theorem valueOf_composed_serving :
    serving.modules.lookup "path" = some .path ∧
    Path.IsAlternate "here" [.name "here"] ∧
    Path.parse "menu/?drink/not:" = .ok ⟨"menu/?drink/not:", none,
      [[.name "menu", .dynamic "drink", .operation "not" ""]]⟩ ∧
    (serving.valueOf none "here/menu/?drink/not:").toOption = some (.bool false) ∧
    (serving.valueOf none "here/path:menu/?drink/not:").toOption = some (.bool false) := by
  have hpath : serving.modules.lookup "path" = some .path := rfl
  have hnot : serving.modules.lookup "not" = some .negation := rfl
  have hhere : Path.IsAlternate "here" [.name "here"] :=
    ⟨eq_ok_of_toOption (by decide +kernel), by simp⟩
  have hrest : Path.parse "menu/?drink/not:" = .ok ⟨"menu/?drink/not:", none,
      [[.name "menu", .dynamic "drink", .operation "not" ""]]⟩ :=
    eq_ok_of_toOption (by decide +kernel)
  have hvalue : serving.valueOf none "here" = .ok serving.globals.root := by
    rw [valueOf_of_isAlternate hhere]
    rfl
  have hfrom : (serving.valueOf (some serving.globals.root) "menu/?drink/not:").toOption =
      some (.bool false) := by
    rw [valueOf_of_parse hrest, toOption_mapError]
    have hturned : serving.operation "not" "" (some (.int 3)) = .ok (.bool false) := by
      rw [operation_eq, hnot]
      rfl
    show (serving.operation "not" "" (some (.int 3)) >>= fun value =>
      serving.walk serving.operation (some value) []).toOption = _
    rw [hturned]
    rfl
  obtain ⟨hslash, hnested⟩ := (valueOf_composed serving none hpath hhere hrest).1 _ hvalue
  exact ⟨hpath, hhere, hrest, hslash.trans hfrom, hnested.trans hfrom⟩

end Environment

end PageTemplate
