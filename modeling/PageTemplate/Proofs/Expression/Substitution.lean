import PageTemplate.Expression.Evaluator
import PageTemplate.Proofs.Ensures
import PageTemplate.Proofs.Text.Cutting
import PageTemplate.Proofs.Text.Doubling

/-! # Writing string expressions

Text is put into a string expression with its dollar signs doubled, and a path between braces
behind a dollar sign. What is read has the paths in their order; the text between them is put
together, so that no two literal stretches stand side by side. The value is the text with the texts
of the paths in their places.
-/

namespace PageTemplate

open Text

namespace StringPart

/-! ## Writing -/

namespace Raw

/-- What stands in a string expression for the stretch. -/
def write : Raw → List Char
  | .literal text => doubled '$' text
  | .substitution path => '$' :: '\x7b' :: (path ++ ['\x7d'])

/-- The text, when the stretch is literal. -/
@[simp] def literal? : Raw → Option String
  | .literal text => some (String.ofList text)
  | .substitution _ => none

/-- The path that is to be read, when the stretch is none of literal text. -/
@[simp] def path? : Raw → Option (List Char)
  | .literal _ => none
  | .substitution path => some path

end Raw

/-- The text, when the stretch is literal. -/
@[simp] def literal? : StringPart → Option String
  | .literal text => some text
  | .substitution _ => none

/-- The path, when the stretch is none of literal text. -/
@[simp] def path? : StringPart → Option Path
  | .literal _ => none
  | .substitution path => some path

/-- No literal stretch is empty, and no two of them stand side by side. -/
def IsMerged (literals : List (Option String)) : Prop :=
  some "" ∉ literals ∧ literals.IsChain fun a b => a = none ∨ b = none

/-- The stretches with their literal text put together, character by character. -/
def merged : List Raw → List Raw
  | [] => []
  | .literal text :: parts => text.foldr addChar (merged parts)
  | .substitution path :: parts => .substitution path :: merged parts

theorem splitAll_cons_of_ne {c : Char} (hc : c ≠ '$') (rest : List Char) :
    splitAll (c :: rest) = (splitAll rest).map (addChar c) := by
  rw [splitAll]
  · exact fun _ heq => absurd heq hc
  · exact fun _ heq => absurd heq hc
  · exact hc

/-- Doubled text is taken character by character, whatever stands behind it. -/
theorem splitAll_doubled_append (s rest : List Char) :
    splitAll (doubled '$' s ++ rest) = (splitAll rest).map fun parts => s.foldr addChar parts := by
  induction s with
  | nil => simp
  | cons c s ih =>
      by_cases hc : c = '$'
      · subst hc
        simp [splitAll, ih, Function.comp_def]
      · simp [hc, splitAll_cons_of_ne hc, ih, Function.comp_def]

theorem splitAll_substitution {path : List Char} (h : '\x7d' ∉ path) (rest : List Char) :
    splitAll ((Raw.substitution path).write ++ rest) =
      (splitAll rest).map (.substitution path :: ·) := by
  have hclose : splitAt? (· == '\x7d') (path ++ '\x7d' :: rest) = some (path, rest) :=
    splitAt?_append (fun c hc => by simpa using ne_of_mem_of_not_mem hc h) (by simp) rest
  have htext : (Raw.substitution path).write ++ rest =
      '$' :: '\x7b' :: (path ++ '\x7d' :: rest) := by
    simp [Raw.write]
  rw [htext, splitAll]
  split
  next heq =>
    rw [hclose] at heq
    obtain ⟨rfl, rfl⟩ := Prod.mk.inj (Option.some.inj heq)
    rfl
  next heq =>
    rw [hclose] at heq
    cases heq

theorem splitAll_flatMap_write {parts : List Raw}
    (h : ∀ path, .substitution path ∈ parts → '\x7d' ∉ path) :
    splitAll (parts.flatMap Raw.write) = some (merged parts) := by
  induction parts with
  | nil => simp [splitAll, merged]
  | cons part parts ih =>
      have hrest := ih fun path hpath => h path (List.mem_cons_of_mem _ hpath)
      cases part with
      | literal text =>
          rw [List.flatMap_cons, Raw.write, splitAll_doubled_append, hrest]
          rfl
      | substitution path =>
          rw [List.flatMap_cons, splitAll_substitution (h path List.mem_cons_self), hrest]
          rfl

/-! ## Literal text put together -/

theorem isMerged_addChar (c : Char) {parts : List Raw} (h : IsMerged (parts.map Raw.literal?)) :
    IsMerged ((addChar c parts).map Raw.literal?) := by
  obtain ⟨hne, hchain⟩ := h
  match parts with
  | [] => simp [IsMerged, addChar]
  | .substitution path :: parts =>
      exact ⟨by simpa [addChar] using hne, List.isChain_cons_cons.mpr ⟨.inr rfl, hchain⟩⟩
  | .literal text :: parts =>
      have hrest : some "" ∉ parts.map Raw.literal? := fun hmem =>
        hne (List.mem_cons_of_mem _ hmem)
      refine ⟨by simpa [addChar] using hrest, ?_⟩
      cases parts with
      | nil => exact .singleton _
      | cons part parts =>
          obtain ⟨hpart, hchain⟩ := List.isChain_cons_cons.mp hchain
          exact List.isChain_cons_cons.mpr ⟨.inr (hpart.resolve_left nofun), hchain⟩

theorem isMerged_merged (parts : List Raw) : IsMerged ((merged parts).map Raw.literal?) := by
  induction parts with
  | nil => simp [IsMerged, merged]
  | cons part parts ih =>
      cases part with
      | literal text =>
          rw [merged]
          induction text with
          | nil => exact ih
          | cons c text ih' => exact isMerged_addChar c ih'
      | substitution path =>
          obtain ⟨hne, hchain⟩ := ih
          exact ⟨by simpa [merged] using hne, hchain.cons (by simp)⟩

theorem filterMap_path?_addChar (c : Char) (parts : List Raw) :
    (addChar c parts).filterMap Raw.path? = parts.filterMap Raw.path? := by
  unfold addChar
  split <;> simp [List.filterMap_cons]

theorem filterMap_path?_merged (parts : List Raw) :
    (merged parts).filterMap Raw.path? = parts.filterMap Raw.path? := by
  induction parts with
  | nil => rfl
  | cons part parts ih =>
      cases part with
      | literal text =>
          rw [merged, List.filterMap_cons_none rfl, ← ih]
          induction text with
          | nil => rfl
          | cons c text ih' => rw [List.foldr_cons, filterMap_path?_addChar, ih']
      | substitution path => simp [merged, ih]

/-! ## Reading -/

/-- What is read has literal text where it was written. -/
theorem map_literal?_of_mapM {raws : List Raw} {parts : List StringPart}
    (h : raws.mapM ofRaw = .ok parts) : parts.map literal? = raws.map Raw.literal? := by
  refine map_eq_of_mapM_ok (fun raw part hpart => ?_) h
  cases raw with
  | literal text =>
      cases hpart
      rfl
  | substitution path =>
      obtain ⟨read, -, rfl⟩ := exists_ok_of_map hpart
      rfl

/-- What is read has the paths that were written, in order. -/
theorem mapM_path?_of_mapM {raws : List Raw} {parts : List StringPart}
    (h : raws.mapM ofRaw = .ok parts) :
    (raws.filterMap Raw.path?).mapM Path.parseChars = .ok (parts.filterMap path?) := by
  rw [mapM_eq_ok_iff] at h ⊢
  induction h with
  | nil => exact .nil
  | @cons raw part raws parts hpart _ ih =>
      cases raw with
      | literal text =>
          cases hpart
          exact ih
      | substitution path =>
          obtain ⟨read, hread, rfl⟩ := exists_ok_of_map hpart
          exact .cons hread ih

/-- Text with the paths that can be read is read itself. -/
theorem exists_parse_write {parts : List Raw}
    (h : ∀ path, .substitution path ∈ parts → '\x7d' ∉ path ∧
      ∃ read, Path.parseChars path = .ok read) :
    ∃ read, (merged parts).mapM ofRaw = .ok read ∧
      parseChars (parts.flatMap Raw.write) = .ok read := by
  have hsplit := splitAll_flatMap_write fun path hpath => (h path hpath).1
  have hread : ∀ raw ∈ merged parts, ∃ part, ofRaw raw = .ok part := by
    intro raw hraw
    cases raw with
    | literal text => exact ⟨_, rfl⟩
    | substitution path =>
        have hpath : path ∈ parts.filterMap Raw.path? := by
          rw [← filterMap_path?_merged]
          exact List.mem_filterMap.mpr ⟨_, hraw, rfl⟩
        obtain ⟨part, hpart, hsame⟩ := List.mem_filterMap.mp hpath
        cases part with
        | literal text => cases hsame
        | substitution path' =>
            obtain rfl := Option.some.inj hsame
            obtain ⟨read, hread⟩ := (h path' hpart).2
            exact ⟨.substitution read, by rw [ofRaw, hread]; rfl⟩
  obtain ⟨read, hmapM⟩ := exists_mapM_ok hread
  exact ⟨read, hmapM, by rw [parseChars, hsplit]; exact hmapM⟩

end StringPart

/-! ## The value -/

namespace Environment

variable (env : Environment)

/-- The text that stands in the value for a stretch: literal text as it is, and the text of the
value of a path. -/
def textOf : StringPart.Raw → Except ExpressionError String
  | .literal text => .ok (String.ofList text)
  | .substitution path => do return (← env.evaluateFrom none (← Path.parseChars path)).text

/-- The texts of the stretches, one behind the other. -/
def textOfAll (parts : List StringPart.Raw) : Except ExpressionError String :=
  (parts.mapM env.textOf).map String.join

variable {env}

theorem textOfAll_cons (part : StringPart.Raw) (parts : List StringPart.Raw) :
    env.textOfAll (part :: parts) =
      env.textOf part >>= fun text => (env.textOfAll parts).map (text ++ ·) := by
  unfold textOfAll
  rw [List.mapM_cons]
  cases env.textOf part with
  | error fault => rfl
  | ok text =>
      cases parts.mapM env.textOf with
      | error fault => rfl
      | ok texts => exact congrArg Except.ok String.join_cons

theorem textOfAll_literal_cons (text : List Char) (parts : List StringPart.Raw) :
    env.textOfAll (.literal text :: parts) =
      (env.textOfAll parts).map (String.ofList text ++ ·) := by
  rw [textOfAll_cons]
  rfl

theorem textOfAll_addChar (c : Char) (parts : List StringPart.Raw) :
    env.textOfAll (StringPart.addChar c parts) =
      (env.textOfAll parts).map (String.ofList [c] ++ ·) := by
  unfold StringPart.addChar
  split
  next text parts =>
    rw [textOfAll_literal_cons, textOfAll_literal_cons]
    cases env.textOfAll parts with
    | error fault => rfl
    | ok rest => simp [Except.map, ← String.append_assoc]
  next => rw [textOfAll_literal_cons]

/-- To put literal text together does not change the value. -/
theorem textOfAll_merged (parts : List StringPart.Raw) :
    env.textOfAll (StringPart.merged parts) = env.textOfAll parts := by
  induction parts with
  | nil => rfl
  | cons part parts ih =>
      cases part with
      | substitution path => rw [StringPart.merged, textOfAll_cons, textOfAll_cons, ih]
      | literal text =>
          rw [StringPart.merged, textOfAll_literal_cons, ← ih]
          generalize StringPart.merged parts = rest
          induction text with
          | nil =>
              rw [List.foldr_nil]
              cases env.textOfAll rest <;> simp [Except.map]
          | cons c text ih' =>
              rw [List.foldr_cons, textOfAll_addChar, ih']
              cases env.textOfAll rest with
              | error fault => rfl
              | ok texts => simp [Except.map, ← String.append_assoc]

/-- The value of what is read is the texts of the stretches. -/
theorem stringWith_of_mapM {raws : List StringPart.Raw} {parts : List StringPart}
    (h : raws.mapM StringPart.ofRaw = .ok parts) :
    env.stringWith env.operation parts = env.textOfAll raws := by
  rw [mapM_eq_ok_iff] at h
  induction h with
  | nil => rfl
  | @cons raw part raws parts hpart _ ih =>
      rw [textOfAll_cons, ← ih]
      cases raw with
      | literal text =>
          cases hpart
          rfl
      | substitution path =>
          obtain ⟨read, hread, rfl⟩ := exists_ok_of_map hpart
          rw [textOf, hread, stringWith]
          show _ = (env.evaluateFrom none read >>= fun value => pure value.text) >>= _
          rw [evaluateFrom]
          cases env.pathWith env.operation none read with
          | error fault => rfl
          | ok value => rfl

end Environment

namespace StringPart

/-- What is written for literal text and paths, none of them with a closing brace, is read as merged
literal text and the same paths, and its value is the texts of the stretches. In particular, the
value of a text with its dollar signs doubled is the text. -/
theorem exists_parse_write_stringWith_eq :
    (∀ parts : List Raw,
      (∀ path, .substitution path ∈ parts → '\x7d' ∉ path ∧
        ∃ read, Path.parseChars path = .ok read) →
      ∃ read, parse (String.ofList (parts.flatMap Raw.write)) = .ok read ∧
        IsMerged (read.map literal?) ∧
        (parts.filterMap Raw.path?).mapM Path.parseChars = .ok (read.filterMap path?) ∧
        ∀ env : Environment,
          env.stringWith env.operation read = (parts.mapM env.textOf).map String.join) ∧
    ∀ text : String, ∃ read, parse (String.ofList (doubled '$' text.toList)) = .ok read ∧
      ∀ env : Environment, env.stringWith env.operation read = .ok text := by
  constructor
  · intro parts h
    obtain ⟨read, hmapM, hread⟩ := exists_parse_write h
    refine ⟨read, by simpa [parse] using hread, ?_, ?_, fun env => ?_⟩
    · rw [map_literal?_of_mapM hmapM]
      exact isMerged_merged parts
    · rw [← filterMap_path?_merged]
      exact mapM_path?_of_mapM hmapM
    · rw [Environment.stringWith_of_mapM hmapM, Environment.textOfAll_merged]
      rfl
  · intro text
    have hpaths : ∀ path, .substitution path ∈ [Raw.literal text.toList] →
        '\x7d' ∉ path ∧ ∃ read, Path.parseChars path = .ok read := by simp
    obtain ⟨read, hmapM, hread⟩ := exists_parse_write hpaths
    refine ⟨read, by simpa [parse, Raw.write] using hread, fun env => ?_⟩
    have hvalue : env.textOfAll [.literal text.toList] = .ok (String.ofList text.toList ++ "") := by
      rw [Environment.textOfAll_literal_cons]
      rfl
    rw [Environment.stringWith_of_mapM hmapM, Environment.textOfAll_merged, hvalue]
    simp

/-- Text that looks like a path, and dollar signs on either side of one. -/
theorem exists_parse_write_price :
    '\x7d' ∉ "price | string:none".toList ∧
    (∃ read, Path.parseChars "price | string:none".toList = .ok read) ∧
    ∃ read, parse "$$\x7bprice\x7d$$$\x7bprice | string:none\x7d$$" = .ok read ∧
      IsMerged (read.map literal?) ∧
      ["price | string:none".toList].mapM Path.parseChars = .ok (read.filterMap path?) ∧
      ∀ env : Environment, env.stringWith env.operation read =
        ([.literal "$\x7bprice\x7d$".toList, .substitution "price | string:none".toList,
          .literal "$".toList].mapM env.textOf).map String.join := by
  have hpath : Path.parseChars "price | string:none".toList = .ok
      ⟨"price | string:none", none, [[.name "price"], [.operation "string" "none"]]⟩ :=
    eq_ok_of_toOption (by decide +kernel)
  have hread := exists_parse_write_stringWith_eq.1
    [.literal "$\x7bprice\x7d$".toList, .substitution "price | string:none".toList,
      .literal "$".toList] ?_
  · exact ⟨by decide, ⟨_, hpath⟩, hread⟩
  · simp only [List.mem_cons, reduceCtorEq, Raw.substitution.injEq, List.not_mem_nil, or_false,
      false_or]
    rintro path rfl
    exact ⟨by decide, _, hpath⟩

end StringPart

end PageTemplate
