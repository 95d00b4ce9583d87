import PageTemplate.Expression.Evaluator
import PageTemplate.Proofs.Expression.PathGrammar

/-! # Alternatives

Paths of one alternate each can be written between bars. Their texts are not mistaken for one
another, and the path that is read from them is tried from left to right: its value is that of the
first one that has a value, and if none has, it fails with what each of them fails with.
-/

namespace PageTemplate

open Text

namespace Path

/-! ## Bars between texts -/

/-- The segments that a text is read as, when it is one alternate without an operation, it asks for
no scope, and there are no blanks around it. -/
structure IsAlternate (text : String) (segments : List Segment) : Prop where
  parse_eq : parse text = .ok ⟨text, none, [segments]⟩
  no_operation : ∀ module argument, .operation module argument ∉ segments

section

variable {text : String} {scope : Option DefinitionScope} {alternates : List (List Segment)}

theorem trim_eq_of_parse (h : parse text = .ok ⟨text, scope, alternates⟩) :
    trim text.toList = text.toList := by
  have htext : text = String.ofList (trim text.toList) := (parseChars_eq_ok_iff.mp h).1
  rw [← String.toList_ofList (l := trim text.toList), ← htext]

theorem spells_of_parse (h : parse text = .ok ⟨text, none, alternates⟩) :
    Spells true text.toList alternates := by
  obtain ⟨-, body, ⟨hbody, -⟩, hspells⟩ := parseChars_eq_ok_iff.mp h
  rw [trim_eq_of_parse h] at hbody
  exact hbody ▸ hspells

theorem parse_of_spells (htrim : trim text.toList = text.toList)
    (hmark : ∀ other : DefinitionScope, ¬DefinitionScope.mark (some other) <+: text.toList)
    (h : Spells true text.toList alternates) : parse text = .ok ⟨text, none, alternates⟩ := by
  apply parseChars_eq_ok_iff.mpr
  rw [htrim]
  exact ⟨String.ofList_toList.symm, _, ⟨rfl, fun _ => hmark⟩, h⟩

end

theorem isStretch_append_blank {text : List Char} (h : IsStretch text) {c : Char}
    (hc : isBlank c = true) : IsStretch (text ++ [c]) := by
  have hchars : ∀ d ∈ text ++ [c], isSegmentChar d = true := by
    intro d hd
    rcases List.mem_append.mp hd with hd | hd
    · exact h.no_separator d hd
    · obtain rfl := List.mem_singleton.mp hd
      by_contra hseparator
      rw [not_blank_of_separator (by simpa using hseparator)] at hc
      cases hc
  refine isStretch_iff.mpr ⟨hchars, ?_⟩
  rintro ⟨blanks, module, hstart, hblanks, hmodule⟩
  rcases List.prefix_concat_iff.mp hstart with heq | hstart
  · obtain rfl : ':' = c := List.singleton_inj.mp (List.append_inj' heq rfl).2
    exact absurd hc (by decide)
  · exact h.no_operation ⟨blanks, module, hstart, hblanks, hmodule⟩

/-- Behind an alternate without an operation, a bar between blanks begins the next one. -/
theorem Spells.append_bar {starts : Bool} {text rest : List Char} {segments : List Segment}
    {others : List (List Segment)} (h : Spells starts text [segments])
    (hoperation : ∀ module argument, .operation module argument ∉ segments)
    (hrest : Spells true rest others) :
    Spells starts (text ++ ' ' :: '|' :: ' ' :: rest) (segments :: others) := by
  have hbehind : Spells true (' ' :: rest) others := hrest.cons_blank rfl
  generalize halternates : [segments] = alternates at h
  induction h generalizing segments with
  | operation =>
      obtain rfl := List.singleton_inj.mp halternates
      exact absurd List.mem_cons_self (hoperation _ _)
  | @last _ text _ htext hsegment =>
      obtain rfl := List.singleton_inj.mp halternates
      have htrim : trim (text ++ [' ']) = trim text :=
        trim_append_blanks (List.forall_mem_singleton.mpr rfl) text
      have hspaced := (Segment.isSpelled_congr htrim).mpr hsegment
      simpa using Spells.bar (isStretch_append_blank htext (by decide)) hspaced hbehind
  | slash htext hsegment _ ih =>
      obtain ⟨rfl, rfl⟩ := List.cons.inj halternates
      have hfirst := ih (fun module argument hmem =>
        hoperation module argument (List.mem_cons_of_mem _ hmem)) rfl
      rw [List.append_assoc, List.cons_append]
      exact .slash htext hsegment hfirst
  | bar _ _ hothers =>
      obtain ⟨-, rfl⟩ := List.cons.inj halternates
      exact absurd rfl hothers.ne_nil

theorem spells_intercalate {texts : List (List Char)} {alternates : List (List Segment)}
    (h : List.Forall₂ (fun text segments => Spells true text [segments] ∧
      ∀ module argument, .operation module argument ∉ segments) texts alternates)
    (hne : texts ≠ []) : Spells true ([' ', '|', ' '].intercalate texts) alternates := by
  induction h with
  | nil => exact absurd rfl hne
  | @cons text _ texts _ hfirst hrest ih =>
      cases hrest with
      | nil => simpa using hfirst.1
      | cons =>
          rw [List.intercalate_cons_cons, List.append_assoc]
          exact hfirst.1.append_bar hfirst.2 (ih (List.cons_ne_nil _ _))

namespace IsAlternate

variable {text : String} {segments : List Segment} (h : IsAlternate text segments)

include h

theorem trim_eq : trim text.toList = text.toList := trim_eq_of_parse h.parse_eq

theorem spells : Spells true text.toList [segments] := spells_of_parse h.parse_eq

theorem not_opensOperation : ¬OpensOperation text.toList := by
  intro hopens
  obtain ⟨module, argument, hsegments⟩ := h.spells.exists_operation hopens
  obtain rfl := List.singleton_inj.mp hsegments
  exact h.no_operation module argument List.mem_cons_self

end IsAlternate

section

variable {texts : List String} {alternates : List (List Segment)}
  (h : List.Forall₂ IsAlternate texts alternates)

include h

theorem trim_joined : trim (" | ".intercalate texts).toList = (" | ".intercalate texts).toList := by
  rw [String.toList_intercalate]
  refine trim_intercalate (fun text htext => ?_) _
  obtain ⟨text, hmem, rfl⟩ := List.mem_map.mp htext
  obtain ⟨segments, -, halternate⟩ := exists_of_mem_right h.flip hmem
  have hne := halternate.spells.trim_ne_nil
  rw [halternate.trim_eq] at hne
  exact ⟨hne, halternate.trim_eq⟩

theorem spells_joined (hne : texts ≠ []) :
    Spells true (" | ".intercalate texts).toList alternates := by
  rw [String.toList_intercalate]
  refine spells_intercalate (List.forall₂_map_left_iff.mpr (h.imp ?_)) (by simpa using hne)
  exact fun _ _ halternate => ⟨halternate.spells, halternate.no_operation⟩

theorem not_opensOperation_joined (hne : texts ≠ []) :
    ¬OpensOperation (" | ".intercalate texts).toList := by
  intro hopens
  obtain ⟨module, argument, rfl⟩ := (spells_joined h hne).exists_operation hopens
  obtain ⟨text, -, halternate⟩ := exists_of_mem_right h List.mem_cons_self
  exact halternate.no_operation module argument List.mem_cons_self

/-- Texts between bars are read as their alternates. -/
theorem parse_joined (hne : texts ≠ []) :
    parse (" | ".intercalate texts) = .ok ⟨" | ".intercalate texts, none, alternates⟩ :=
  parse_of_spells (trim_joined h)
    (fun _ hmark => not_opensOperation_joined h hne (opensOperation_of_mark hmark))
    (spells_joined h hne)

end

end Path

namespace Expression

/-- An operator could be the name of a module. -/
theorem Operator.strip?_eq_none {text : List Char} (h : ¬OpensOperation text) :
    Operator.strip? text = none := by
  have hword : ∀ word ∈ ["string", "path", "not", "exists"],
      ¬word.toList ++ [':'] <+: text := by
    intro word hmem hstart
    have hmodule : ∀ word ∈ ["string", "path", "not", "exists"],
        word.toList ≠ [] ∧ word.toList.all isModuleChar = true := by decide
    obtain ⟨hne, hchars⟩ := hmodule word hmem
    exact h ⟨[], word.toList, hstart, List.forall_mem_nil _, hne, List.all_eq_true.mp hchars⟩
  simp only [Operator.strip?, List.findSome?_eq_none_iff, Option.map_eq_none_iff,
    strip?_eq_none_iff]
  intro candidate hcandidate
  simp only [List.mem_cons, List.not_mem_nil, or_false] at hcandidate
  rcases hcandidate with rfl | rfl | rfl | rfl
  · exact hword "string" (by decide)
  · exact hword "path" (by decide)
  · exact hword "not" (by decide)
  · exact hword "exists" (by decide)

/-- A text that opens no operation is read as a path. -/
theorem parse_eq_of_not_opensOperation {text : String} (htrim : trim text.toList = text.toList)
    (h : ¬OpensOperation text.toList) : parse text = (Path.parse text).map .path := by
  have hstart : trimStart text.toList = text.toList := by rw [← htrim, trimStart_trim]
  have hoperator := Operator.strip?_eq_none h
  rw [parse, parseChars]
  split
  case h_5 =>
    rw [hstart]
    rfl
  all_goals next heq =>
    rw [hstart, hoperator] at heq
    cases heq

end Expression

/-! ## Trying one after the other -/

namespace Environment

variable (env : Environment) (start : Option Value)

/-- What a text gives when it is read as a path and evaluated. -/
def valueOf (text : String) : Except ExpressionError Value :=
  Path.parse text >>= env.evaluateFrom start

variable {env start}

theorem valueOf_of_parse {text : String} {scope : Option DefinitionScope} {segments : List Segment}
    (h : Path.parse text = .ok ⟨text, scope, [segments]⟩) : env.valueOf start text =
      (env.walk env.operation start segments).mapError fun fault => .allFailed text [fault] := by
  rw [valueOf, h]
  show env.evaluateFrom start _ = _
  rw [evaluateFrom, pathWith, tryAlternates, tryAlternates]
  cases env.walk env.operation start segments <;> rfl

/-- On its own, an alternate fails with its own failure as the only attempt. -/
theorem valueOf_of_isAlternate {text : String} {segments : List Segment}
    (h : Path.IsAlternate text segments) : env.valueOf start text =
      (env.walk env.operation start segments).mapError fun fault => .allFailed text [fault] :=
  valueOf_of_parse h.parse_eq

theorem valueOf_joined {texts : List String} {alternates : List (List Segment)}
    (h : List.Forall₂ Path.IsAlternate texts alternates) (hne : texts ≠ []) :
    env.valueOf start (" | ".intercalate texts) =
      (env.tryAlternates env.operation start alternates).mapError
        (.allFailed (" | ".intercalate texts) ·) := by
  rw [valueOf, Path.parse_joined h hne]
  rfl

section

variable {texts : List String} {alternates : List (List Segment)}
  (h : List.Forall₂ Path.IsAlternate texts alternates)

include h

theorem tryAlternates_eq_ok {value : Value}
    (hvalue : texts.findSome? (fun text => (env.valueOf start text).toOption) = some value) :
    env.tryAlternates env.operation start alternates = .ok value := by
  induction h with
  | nil => cases hvalue
  | cons hfirst _ ih =>
      rw [List.findSome?_cons, valueOf_of_isAlternate hfirst] at hvalue
      rw [tryAlternates]
      cases hwalk : env.walk env.operation start _ with
      | ok found =>
          rw [hwalk] at hvalue
          exact congrArg _ (Option.some.inj hvalue)
      | error fault =>
          rw [hwalk] at hvalue
          dsimp only
          rw [ih hvalue]
          rfl

theorem tryAlternates_eq_error
    (hnone : texts.findSome? (fun text => (env.valueOf start text).toOption) = none) :
    ∃ attempts, env.tryAlternates env.operation start alternates = .error attempts ∧
      List.Forall₂ (fun text attempt =>
        env.valueOf start text = .error (.allFailed text [attempt])) texts attempts := by
  induction h with
  | nil => exact ⟨[], rfl, .nil⟩
  | cons hfirst _ ih =>
      have hvalue : env.valueOf start _ = _ := valueOf_of_isAlternate hfirst
      rw [List.findSome?_cons, hvalue] at hnone
      rw [tryAlternates]
      cases hwalk : env.walk env.operation start _ with
      | ok found =>
          rw [hwalk] at hnone
          cases hnone
      | error fault =>
          rw [hwalk] at hnone hvalue
          obtain ⟨attempts, htry, hattempts⟩ := ih hnone
          refine ⟨fault :: attempts, ?_, .cons hvalue hattempts⟩
          dsimp only
          rw [htry]
          rfl

end

theorem evaluate_parse_eq_valueOf {text : String} (htrim : trim text.toList = text.toList)
    (h : ¬OpensOperation text.toList) :
    Expression.parse text >>= env.evaluate = env.valueOf none text := by
  rw [Expression.parse_eq_of_not_opensOperation htrim h, valueOf]
  cases Path.parse text <;> rfl

/-- The value of texts between bars is that of the first text that has one. If none has, there is
one attempt for each text, which is the only attempt when that text stands alone. As expressions the
texts have the same values. -/
theorem valueOf_intercalate (env : Environment) (start : Option Value) (texts : List String)
    (hne : texts ≠ []) (h : ∀ text ∈ texts, ∃ segments, Path.IsAlternate text segments) :
    (∀ value, texts.findSome? (fun text => (env.valueOf start text).toOption) = some value →
      env.valueOf start (" | ".intercalate texts) = .ok value) ∧
    (texts.findSome? (fun text => (env.valueOf start text).toOption) = none →
      ∃ attempts, env.valueOf start (" | ".intercalate texts) =
          .error (.allFailed (" | ".intercalate texts) attempts) ∧
        List.Forall₂ (fun text attempt =>
          env.valueOf start text = .error (.allFailed text [attempt])) texts attempts) ∧
    ∀ text ∈ " | ".intercalate texts :: texts,
      Expression.parse text >>= env.evaluate = env.valueOf none text := by
  obtain ⟨alternates, halternates⟩ := exists_forall₂_of_mem h
  refine ⟨fun value hvalue => ?_, fun hnone => ?_, fun text htext => ?_⟩
  · rw [valueOf_joined halternates hne, tryAlternates_eq_ok halternates hvalue]
    rfl
  · obtain ⟨attempts, htry, hattempts⟩ := tryAlternates_eq_error halternates hnone
    refine ⟨attempts, ?_, hattempts⟩
    rw [valueOf_joined halternates hne, htry]
    rfl
  · rcases List.mem_cons.mp htext with rfl | htext
    · exact evaluate_parse_eq_valueOf (Path.trim_joined halternates)
        (Path.not_opensOperation_joined halternates hne)
    · obtain ⟨segments, halternate⟩ := h text htext
      exact evaluate_parse_eq_valueOf halternate.trim_eq halternate.not_opensOperation

/-- An environment with a title. -/
def titled : Environment where
  scope := {}
  globals := { root := .null, bindings := [("title", .string "Home")] }

/-- The title is the first that has a value. Without one, there are as many attempts as texts. -/
theorem valueOf_intercalate_titled :
    (∀ text ∈ ["missing", "title", "nothing"], ∃ segments, Path.IsAlternate text segments) ∧
    titled.valueOf none "missing | title | nothing" = .ok (.string "Home") ∧
    (∀ text ∈ ["missing", "here/?missing"], ∃ segments, Path.IsAlternate text segments) ∧
    ∃ attempts, titled.valueOf none "missing | here/?missing" =
      .error (.allFailed "missing | here/?missing" attempts) ∧ attempts.length = 2 := by
  have hmissing : Path.IsAlternate "missing" [.name "missing"] :=
    ⟨eq_ok_of_toOption (by decide +kernel), by simp⟩
  have htitle : Path.IsAlternate "title" [.name "title"] :=
    ⟨eq_ok_of_toOption (by decide +kernel), by simp⟩
  have hnothing : Path.IsAlternate "nothing" [.name "nothing"] :=
    ⟨eq_ok_of_toOption (by decide +kernel), by simp⟩
  have hdynamic : Path.IsAlternate "here/?missing" [.name "here", .dynamic "missing"] :=
    ⟨eq_ok_of_toOption (by decide +kernel), by simp⟩
  have hthree : ∀ text ∈ ["missing", "title", "nothing"],
      ∃ segments, Path.IsAlternate text segments := by
    simp only [List.forall_mem_cons]
    exact ⟨⟨_, hmissing⟩, ⟨_, htitle⟩, ⟨_, hnothing⟩, List.forall_mem_nil _⟩
  have htwo : ∀ text ∈ ["missing", "here/?missing"],
      ∃ segments, Path.IsAlternate text segments := by
    simp only [List.forall_mem_cons]
    exact ⟨⟨_, hmissing⟩, ⟨_, hdynamic⟩, List.forall_mem_nil _⟩
  have hfound := (valueOf_intercalate titled none _ (by simp) hthree).1 (.string "Home") <| by
    rw [List.findSome?_cons, valueOf_of_isAlternate hmissing, List.findSome?_cons,
      valueOf_of_isAlternate htitle]
    rfl
  obtain ⟨attempts, hfailed, hattempts⟩ :=
    (valueOf_intercalate titled none _ (by simp) htwo).2.1 <| by
      rw [List.findSome?_cons, valueOf_of_isAlternate hmissing, List.findSome?_cons,
        valueOf_of_isAlternate hdynamic]
      rfl
  exact ⟨hthree, hfound, htwo, attempts, hfailed, hattempts.length_eq.symm⟩

end Environment

end PageTemplate
