import PageTemplate.Proofs.Expression.Operations
import PageTemplate.Proofs.Expression.PathGrammar
import PageTemplate.Proofs.Expression.Substitution

/-! # Evaluation comes to an end

While an expression is evaluated, modules read new expressions from the arguments of operations, and
these may hold operations again. Here evaluation is watched: each text that a module reads is noted,
and operations may lie inside one another only so deep. What is read is always a part of the path
that holds the operation, and not all of it. So a depth that does for the length of the first text
is never exhausted, and the watched evaluation gives what evaluation gives.
-/

namespace PageTemplate

open Text

/-! ## Watched evaluation -/

/-- A text that a module reads, and the text of the path that the module's operation stands in. -/
structure Reading where
  holder : String
  text : String
deriving DecidableEq, Repr

/-- Why a watched evaluation gives no value. -/
inductive Halt where
  | failed (error : ExpressionError)
  /-- The operations lie deeper inside one another than is allowed. -/
  | exhausted

/-- A step of an evaluation that notes what is read. -/
abbrev Watched (α : Type) := ExceptT Halt (StateM (List Reading)) α

namespace Watched

variable {α β : Type}

def ofResult : Except ExpressionError α → Watched α
  | .ok a => pure a
  | .error error => throw (.failed error)

/-- Runs a step whose failure does not end the evaluation. Exhaustion does. -/
def attempt (m : Watched α) : Watched (Except ExpressionError α) :=
  tryCatch (.ok <$> m) fun
    | .failed error => pure (.error error)
    | .exhausted => throw .exhausted

/-- Reads a text for an operation in the path `holder`. -/
def read (parse : String → Except ExpressionError α) (holder text : String) : Watched α := do
  modify (· ++ [{ holder, text }])
  ofResult (parse text)

/-- How an operation is carried out: the text of its path, module name, argument and the value so
far. -/
abbrev Operate := String → String → String → Option Value → Watched Value

variable (env : Environment) (operate : Operate)

/-- One step of a path. -/
def step (holder : String) (current : Option Value) : Segment → Watched Value
  | .name text => ofResult (env.stepTo current text)
  | .dynamic text => ofResult (do env.stepTo current (← env.resolveRoot text).text)
  | .operation module argument => operate holder module argument current

/-- Walks the segments of an alternate. -/
def walk (holder : String) (current : Option Value) : List Segment → Watched Value
  | [] => pure (current.getD .null)
  | segment :: segments => do
    walk holder (some (← step env operate holder current segment)) segments

/-- The value of the first alternate that succeeds, or the errors of all. -/
def tryAlternates (holder : String) (start : Option Value) :
    List (List Segment) → Watched (Except (List ExpressionError) Value)
  | [] => pure (.error [])
  | alternate :: alternates => do
    match ← attempt (walk env operate holder start alternate) with
    | .ok value => pure (.ok value)
    | .error error => return (← tryAlternates holder start alternates).mapError (error :: ·)

/-- The value of a path. With a `start`, the first segment is looked up on it. -/
def evaluatePath (start : Option Value) (path : Path) : Watched Value := do
  let found ← tryAlternates env operate path.text start path.alternates
  ofResult (found.mapError (.allFailed path.text ·))

/-- The text of a string expression. -/
def evaluateString : List StringPart → Watched String
  | [] => pure ""
  | .literal text :: parts => return text ++ (← evaluateString parts)
  | .substitution path :: parts => do
    let value ← evaluatePath env operate none path
    return value.text ++ (← evaluateString parts)

/-- The value of an expression. -/
def evaluateExpression : Expression → Watched Value
  | .path path => evaluatePath env operate none path
  | .string parts => return .string (← evaluateString env operate parts)
  | .negation inner => return .bool !(← evaluateExpression inner).isTruthy
  | .existence path => return .bool (← attempt (evaluatePath env operate none path)).toOption.isSome

/-- Carries out a pipe. -/
def pipe (holder argument : String) (current : Option Value) : Watched Value :=
  let failure := fun message => ofResult (.error (.moduleFailure "pipe" message))
  match Environment.pipeHalves argument with
  | none => failure s!"expected 'source callable', found '{Text.trimmed argument}'"
  | some (source, callable) => do
    match ← attempt (read Path.parse holder source >>= evaluatePath env operate current) with
    | .error error => failure s!"cannot resolve source '{source}': {error.message}"
    | .ok value =>
      match ← attempt
          (read Expression.parse holder callable >>= evaluateExpression env operate) with
      | .error error => failure s!"cannot resolve callable '{callable}': {error.message}"
      | .ok function => ofResult (env.apply callable function value)

/-- Carries out a module. -/
def runModule (module : Module) (holder argument : String) (current : Option Value) :
    Watched Value :=
  match module with
  | .string => do
    let parts ← read StringPart.parse holder argument
    return .string (← evaluateString env operate parts)
  | .negation =>
    if (Text.trim argument.toList).isEmpty then
      match current with
      | some value => pure (.bool !value.isTruthy)
      | none => ofResult (.error (.moduleFailure "not" "nothing to negate"))
    else do
      let inner ← read Expression.parse holder argument
      return .bool !(← evaluateExpression env operate inner).isTruthy
  | .path => read Path.parse holder argument >>= evaluatePath env operate current
  | .existence => do
    let path ← read Path.parse holder argument
    return .bool (← attempt (evaluatePath env operate current path)).toOption.isSome
  | .pipe => pipe env operate holder argument current
  | .host run => ofResult (run current argument)

/-- Carries out an operation that has only so many operations inside one another. -/
def operation : Nat → Operate
  | 0, _, _, _, _ => throw .exhausted
  | depth + 1, holder, name, argument, current =>
    match env.modules.lookup name with
    | none => ofResult (.error (.unknownModule name))
    | some module => runModule env (operation depth) module holder argument current

/-- Reads and evaluates a text. -/
def evaluate (depth : Nat) (text : String) : Watched Value :=
  ofResult (Expression.parse text) >>= evaluateExpression env (operation env depth)

end Watched

/-! ## What a watched step follows -/

/-- What is read is a part of the path that holds the operation, and not all of it. -/
def Reading.IsWithin (reading : Reading) : Prop :=
  reading.text.toList <:+: reading.holder.toList ∧ reading.text.length < reading.holder.length

namespace Watched

variable {α β : Type}

/-- The step ends with the result, without exhaustion, and all that it reads is within a path. -/
def Follows (m : Watched α) (result : Except ExpressionError α) : Prop :=
  ∀ s, (∀ reading ∈ s, reading.IsWithin) →
    ∃ t, outcome m s = (result.mapError .failed, t) ∧ ∀ reading ∈ t, reading.IsWithin

namespace Follows

variable {m : Watched α} {result : Except ExpressionError α}

protected theorem pure (a : α) : Follows (pure a) (.ok a) := fun s hs => ⟨s, rfl, hs⟩

protected theorem ofResult (result : Except ExpressionError α) :
    Follows (ofResult result) result := by
  intro s hs
  cases result with
  | ok a => exact ⟨s, rfl, hs⟩
  | error error => exact ⟨s, rfl, hs⟩

protected theorem bind {f : α → Watched β} {next : α → Except ExpressionError β}
    (h : Follows m result) (hf : ∀ a, result = .ok a → Follows (f a) (next a)) :
    Follows (m >>= f) (result >>= next) := by
  intro s hs
  obtain ⟨t, ht, hwithin⟩ := h s hs
  rw [outcome_bind, ht]
  cases result with
  | ok a => exact hf a rfl t hwithin
  | error error => exact ⟨t, rfl, hwithin⟩

protected theorem bind_ok {a : α} {f : α → Watched β} {result : Except ExpressionError β}
    (h : Follows m (.ok a)) (hf : Follows (f a) result) : Follows (m >>= f) result := by
  have hnext : ∀ b, (.ok a : Except ExpressionError α) = .ok b → Follows (f b) result :=
    fun _ heq => Except.ok.inj heq ▸ hf
  exact h.bind hnext

/-- The attempt of a step has its result as the value. -/
protected theorem attempt (h : Follows m result) : Follows (attempt m) (.ok result) := by
  intro s hs
  obtain ⟨t, ht, hwithin⟩ := h s hs
  refine ⟨t, ?_, hwithin⟩
  rw [attempt, outcome_tryCatch, outcome_map, ht]
  cases result <;> rfl

protected theorem read {parse : String → Except ExpressionError α} {holder text : String}
    (h : Reading.IsWithin ⟨holder, text⟩) : Follows (read parse holder text) (parse text) := by
  intro s hs
  have hnoted : ∀ reading ∈ s ++ [⟨holder, text⟩], reading.IsWithin := by
    intro reading hreading
    rcases List.mem_append.mp hreading with hreading | hreading
    · exact hs reading hreading
    · exact List.mem_singleton.mp hreading ▸ h
  obtain ⟨t, ht, hwithin⟩ := Follows.ofResult (parse text) _ hnoted
  refine ⟨t, ?_, hwithin⟩
  rw [read, outcome_bind, outcome_modify]
  exact ht

end Follows

/-- Operations with arguments that are shorter than the bound, and within their paths, are carried
out as they should be. -/
def Carries (bound : Nat) (operate : Operate) (operate' : Environment.Operate) : Prop :=
  ∀ holder name argument current, Reading.IsWithin ⟨holder, argument⟩ → argument.length < bound →
    Follows (operate holder name argument current) (operate' name argument current)

end Watched

/-- The arguments of the operations are within the path, which is no longer than the bound. -/
structure Path.Fits (bound : Nat) (path : Path) : Prop where
  length_le : path.text.length ≤ bound
  within : ∀ alternate ∈ path.alternates, ∀ module argument,
    .operation module argument ∈ alternate → Reading.IsWithin ⟨path.text, argument⟩

/-- The paths of an expression. -/
def Expression.paths : Expression → List Path
  | .path p => [p]
  | .string parts => parts.filterMap StringPart.path?
  | .negation inner => inner.paths
  | .existence p => [p]

/-! ## Parts of a text -/

theorem Environment.isInfix_of_pipeHalves {argument source callable : String}
    (h : pipeHalves argument = some (source, callable)) :
    source.toList <:+: argument.toList ∧ callable.toList <:+: argument.toList := by
  unfold pipeHalves at h
  split at h
  next before after hsplit =>
    obtain ⟨c, -, htrim, -⟩ := eq_append_of_splitAt? hsplit
    have hbefore : before <:+: trim argument.toList := ⟨[], c :: after, by simp [htrim]⟩
    have hafter : after <:+: trim argument.toList := ⟨before ++ [c], [], by simp [htrim]⟩
    dsimp only at h
    split at h
    · cases h
    · cases h
      simp only [String.toList_ofList]
      exact ⟨hbefore.trans (trim_isInfix _),
        (trim_isInfix after).trans (hafter.trans (trim_isInfix _))⟩
  next => cases h

theorem Text.length_le_of_isInfix {text whole : String} (h : text.toList <:+: whole.toList) :
    text.length ≤ whole.length := by
  simpa only [String.length_toList] using h.length_le

theorem Reading.IsWithin.of_isInfix {holder argument text : String}
    (h : IsWithin ⟨holder, argument⟩) (htext : text.toList <:+: argument.toList) :
    IsWithin ⟨holder, text⟩ :=
  ⟨htext.trans h.1, Nat.lt_of_le_of_lt (length_le_of_isInfix htext) h.2⟩

theorem Path.Fits.mono {path : Path} {bound bound' : Nat} (h : path.Fits bound)
    (hle : bound ≤ bound') : path.Fits bound' :=
  ⟨Nat.le_trans h.length_le hle, h.within⟩

/-- The argument of an operation is what stands behind the colon, to the end of the text. -/
theorem Path.Spells.exists_argument {starts : Bool} {text : List Char}
    {alternates : List (List Segment)} (h : Spells starts text alternates)
    {alternate : List Segment} (halternate : alternate ∈ alternates) {module argument : String}
    (hoperation : .operation module argument ∈ alternate) :
    ∃ front, text = front ++ ':' :: argument.toList := by
  induction h generalizing alternate with
  | @operation _ blanks module' argument' =>
      obtain rfl := List.mem_singleton.mp halternate
      cases List.mem_singleton.mp hoperation
      exact ⟨blanks ++ module', by simp⟩
  | last _ hsegment =>
      obtain rfl := List.mem_singleton.mp halternate
      cases List.mem_singleton.mp hoperation
      cases hsegment
  | @slash _ text rest _ _ _ _ hsegment _ ih =>
      have hrest : ∃ front, rest = front ++ ':' :: argument.toList := by
        rcases List.mem_cons.mp halternate with rfl | hothers
        · rcases List.mem_cons.mp hoperation with rfl | hfirst
          · cases hsegment
          · exact ih List.mem_cons_self hfirst
        · exact ih (List.mem_cons_of_mem _ hothers) hoperation
      obtain ⟨front, rfl⟩ := hrest
      exact ⟨text ++ '/' :: front, by simp⟩
  | @bar _ text _ _ _ _ hsegment _ ih =>
      rcases List.mem_cons.mp halternate with rfl | hothers
      · cases List.mem_singleton.mp hoperation
        cases hsegment
      · obtain ⟨front, rfl⟩ := ih hothers hoperation
        exact ⟨text ++ '|' :: front, by simp⟩

theorem Path.fits_of_parseChars {input : List Char} {path : Path}
    (h : parseChars input = .ok path) : path.Fits input.length := by
  obtain ⟨htext, body, ⟨hbody, -⟩, hspells⟩ := parseChars_eq_ok_iff.mp h
  have htoList : path.text.toList = trim input := by rw [htext, String.toList_ofList]
  refine ⟨?_, fun alternate halternate module argument hoperation => ?_⟩
  · rw [← String.length_toList, htoList]
    exact trim_length_le input
  · obtain ⟨front, rfl⟩ := hspells.exists_argument halternate hoperation
    have hsuffix : path.text.toList =
        (DefinitionScope.mark path.scope ++ front ++ [':']) ++ argument.toList := by
      rw [htoList, hbody]
      simp
    refine ⟨⟨_, [], by rw [hsuffix, List.append_nil]⟩, ?_⟩
    rw [← String.length_toList, ← String.length_toList, hsuffix]
    simp only [List.length_append, List.length_cons, List.length_nil]
    omega

theorem StringPart.fits_of_parseChars {input : List Char} {parts : List StringPart}
    (h : parseChars input = .ok parts) :
    ∀ path ∈ parts.filterMap path?, path.Fits input.length := by
  unfold parseChars at h
  split at h
  next raws hraws =>
    intro path hpath
    obtain ⟨text, htext, hread⟩ :=
      exists_of_mem_right (mapM_eq_ok_iff.mp (mapM_path?_of_mapM h)) hpath
    obtain ⟨raw, hraw, heq⟩ := List.mem_filterMap.mp htext
    cases raw with
    | literal text => cases heq
    | substitution text' =>
        cases heq
        have hlength := Nat.le_of_lt (length_of_mem_splitAll hraws hraw)
        exact (Path.fits_of_parseChars hread).mono hlength
  next => cases h

theorem Expression.fits_of_parseChars {input : List Char} {expression : Expression}
    (h : parseChars input = .ok expression) :
    ∀ path ∈ expression.paths, path.Fits input.length := by
  have hrest : ∀ {input rest : List Char} {operator : Operator} {path : Path},
      Operator.strip? (trimStart input) = some (operator, rest) → path.Fits rest.length →
        path.Fits input.length :=
    fun hoperator hfits => hfits.mono (Nat.le_trans
      (Nat.le_of_lt (Operator.length_of_strip? hoperator)) (trimStart_length_le _))
  fun_induction parseChars input generalizing expression with
  | case1 input rest hoperator =>
      obtain ⟨parts, hparts, rfl⟩ := exists_ok_of_map h
      exact fun path hpath => hrest hoperator (StringPart.fits_of_parseChars hparts path hpath)
  | case2 input rest hoperator ih =>
      obtain ⟨inner, hinner, rfl⟩ := exists_ok_of_map h
      exact fun path hpath => hrest hoperator (ih hinner path hpath)
  | case3 input rest hoperator =>
      obtain ⟨path, hpath, rfl⟩ := exists_ok_of_map h
      exact List.forall_mem_singleton.mpr (hrest hoperator (Path.fits_of_parseChars hpath))
  | case4 input rest hoperator =>
      obtain ⟨path, hpath, rfl⟩ := exists_ok_of_map h
      exact List.forall_mem_singleton.mpr (hrest hoperator (Path.fits_of_parseChars hpath))
  | case5 input _ =>
      obtain ⟨path, hpath, rfl⟩ := exists_ok_of_map h
      exact List.forall_mem_singleton.mpr
        ((Path.fits_of_parseChars hpath).mono (trimStart_length_le input))

/-! ## Watched evaluation follows evaluation -/

namespace Watched

variable {env : Environment} {operate : Operate} {operate' : Environment.Operate} {bound : Nat}
  (hcarries : Carries bound operate operate')

include hcarries

theorem follows_step {holder : String} {segment : Segment}
    (hsegment : ∀ module argument, segment = .operation module argument →
      Reading.IsWithin ⟨holder, argument⟩ ∧ argument.length < bound) (current : Option Value) :
    Follows (step env operate holder current segment) (env.step operate' current segment) := by
  cases segment with
  | name text => exact .ofResult _
  | dynamic text => exact .ofResult _
  | operation module argument =>
      obtain ⟨hwithin, hlength⟩ := hsegment module argument rfl
      exact hcarries holder module argument current hwithin hlength

theorem follows_walk {holder : String} {segments : List Segment}
    (hsegments : ∀ module argument, .operation module argument ∈ segments →
      Reading.IsWithin ⟨holder, argument⟩ ∧ argument.length < bound) (current : Option Value) :
    Follows (walk env operate holder current segments) (env.walk operate' current segments) := by
  induction segments generalizing current with
  | nil => exact .pure _
  | cons segment segments ih =>
      rw [walk, Environment.walk]
      refine (follows_step hcarries (fun module argument heq =>
        hsegments module argument (heq ▸ List.mem_cons_self)) current).bind fun value _ => ?_
      exact ih (fun module argument hmem =>
        hsegments module argument (List.mem_cons_of_mem _ hmem)) (some value)

theorem follows_tryAlternates {holder : String} {alternates : List (List Segment)}
    (halternates : ∀ alternate ∈ alternates, ∀ module argument,
      .operation module argument ∈ alternate →
        Reading.IsWithin ⟨holder, argument⟩ ∧ argument.length < bound) (start : Option Value) :
    Follows (tryAlternates env operate holder start alternates)
      (.ok (env.tryAlternates operate' start alternates)) := by
  induction alternates with
  | nil => exact .pure _
  | cons alternate alternates ih =>
      obtain ⟨hfirst, hrest⟩ := List.forall_mem_cons.mp halternates
      rw [tryAlternates, Environment.tryAlternates]
      refine (follows_walk hcarries hfirst start).attempt.bind_ok ?_
      cases env.walk operate' start alternate with
      | ok value => exact .pure _
      | error error => exact (ih hrest).bind_ok (.pure _)

theorem follows_evaluatePath {path : Path} (h : path.Fits bound) (start : Option Value) :
    Follows (evaluatePath env operate start path) (env.pathWith operate' start path) := by
  have halternates : ∀ alternate ∈ path.alternates, ∀ module argument,
      .operation module argument ∈ alternate →
        Reading.IsWithin ⟨path.text, argument⟩ ∧ argument.length < bound := by
    intro alternate halternate module argument hmem
    have hwithin := h.within alternate halternate module argument hmem
    exact ⟨hwithin, Nat.lt_of_lt_of_le hwithin.2 h.length_le⟩
  exact (follows_tryAlternates hcarries halternates start).bind_ok (.ofResult _)

theorem follows_evaluateString {parts : List StringPart}
    (h : ∀ path ∈ parts.filterMap StringPart.path?, path.Fits bound) :
    Follows (evaluateString env operate parts) (env.stringWith operate' parts) := by
  induction parts with
  | nil => exact .pure _
  | cons part parts ih =>
      cases part with
      | literal text =>
          rw [evaluateString, Environment.stringWith]
          exact (ih h).bind fun _ _ => .pure _
      | substitution path =>
          obtain ⟨hfirst, hrest⟩ := List.forall_mem_cons.mp h
          rw [evaluateString, Environment.stringWith]
          refine (follows_evaluatePath hcarries hfirst none).bind fun value _ => ?_
          exact (ih hrest).bind fun _ _ => .pure _

theorem follows_evaluateExpression {expression : Expression}
    (h : ∀ path ∈ expression.paths, path.Fits bound) :
    Follows (evaluateExpression env operate expression)
      (env.evaluateWith operate' expression) := by
  induction expression with
  | path p => exact follows_evaluatePath hcarries (h p List.mem_cons_self) none
  | string parts => exact (follows_evaluateString hcarries h).bind fun _ _ => .pure _
  | negation inner ih =>
      rw [evaluateExpression, Environment.evaluateWith]
      exact (ih h).bind fun _ _ => .pure _
  | existence p =>
      rw [evaluateExpression, Environment.evaluateWith]
      exact (follows_evaluatePath hcarries (h p List.mem_cons_self) none).attempt.bind_ok (.pure _)

end Watched

theorem Path.fits_of_parse {text : String} {path : Path} {bound : Nat}
    (h : parse text = .ok path) (hle : text.length ≤ bound) : path.Fits bound :=
  (fits_of_parseChars h).mono (by rwa [String.length_toList])

theorem Expression.fits_of_parse {text : String} {expression : Expression} {bound : Nat}
    (h : parse text = .ok expression) (hle : text.length ≤ bound) :
    ∀ path ∈ expression.paths, path.Fits bound :=
  fun path hpath => (fits_of_parseChars h path hpath).mono (by rwa [String.length_toList])

namespace Watched

variable {env : Environment} {operate : Operate} {operate' : Environment.Operate}
  {holder argument : String}

section

variable (hwithin : Reading.IsWithin ⟨holder, argument⟩)
  (hcarries : Carries argument.length operate operate')

include hwithin hcarries

theorem follows_readPath {text : String} (htext : text.toList <:+: argument.toList)
    (current : Option Value) :
    Follows (read Path.parse holder text >>= evaluatePath env operate current)
      (Path.parse text >>= env.pathWith operate' current) :=
  (Follows.read (hwithin.of_isInfix htext)).bind fun _ hread =>
    follows_evaluatePath hcarries (Path.fits_of_parse hread (length_le_of_isInfix htext)) current

theorem follows_readExpression {text : String} (htext : text.toList <:+: argument.toList) :
    Follows (read Expression.parse holder text >>= evaluateExpression env operate)
      (Expression.parse text >>= env.evaluateWith operate') :=
  (Follows.read (hwithin.of_isInfix htext)).bind fun _ hread =>
    follows_evaluateExpression hcarries
      (Expression.fits_of_parse hread (length_le_of_isInfix htext))

theorem follows_pipe (current : Option Value) :
    Follows (pipe env operate holder argument current)
      (env.pipeWith operate' argument current) := by
  unfold pipe Environment.pipeWith
  cases hhalves : Environment.pipeHalves argument with
  | none => exact .ofResult _
  | some halves =>
      obtain ⟨source, callable⟩ := halves
      obtain ⟨hsource, hcallable⟩ := Environment.isInfix_of_pipeHalves hhalves
      dsimp only
      refine (follows_readPath hwithin hcarries hsource current).attempt.bind_ok ?_
      cases Path.parse source >>= env.pathWith operate' current with
      | error error => exact .ofResult _
      | ok value =>
          refine (follows_readExpression hwithin hcarries hcallable).attempt.bind_ok ?_
          cases Expression.parse callable >>= env.evaluateWith operate' with
          | error error => exact .ofResult _
          | ok function => exact .ofResult _

/-- A module gives what it should when the operations in its argument are carried out as they
should be. -/
theorem follows_runModule (module : Module) (current : Option Value) :
    Follows (runModule env operate module holder argument current)
      (env.runModule operate' module argument current) := by
  cases module with
  | string =>
      refine (Follows.read hwithin).bind fun parts hread => ?_
      have hfits := StringPart.fits_of_parseChars hread
      rw [String.length_toList] at hfits
      exact (follows_evaluateString hcarries hfits).bind fun _ _ => .pure _
  | negation =>
      unfold runModule Environment.runModule
      dsimp only
      split
      · cases current with
        | none => exact .ofResult _
        | some value => exact .pure _
      · refine (Follows.read hwithin).bind fun inner hread => ?_
        exact (follows_evaluateExpression hcarries
          (Expression.fits_of_parse hread (Nat.le_refl _))).bind fun _ _ => .pure _
  | path => exact follows_readPath hwithin hcarries (List.infix_refl _) current
  | existence =>
      refine (Follows.read hwithin).bind fun path hread => ?_
      exact (follows_evaluatePath hcarries (Path.fits_of_parse hread (Nat.le_refl _))
        current).attempt.bind_ok (.pure _)
  | pipe => exact follows_pipe hwithin hcarries current
  | host run => exact .ofResult _

end

/-- An allowed depth that is greater than the length of an argument does for the operation. -/
theorem carries_operation (depth : Nat) : Carries depth (operation env depth) env.operation := by
  induction depth with
  | zero => exact fun _ _ _ _ _ hlength => absurd hlength (Nat.not_lt_zero _)
  | succ depth ih =>
      intro holder name argument current hwithin hlength
      rw [operation, Environment.operation_eq]
      cases env.modules.lookup name with
      | none => exact .ofResult _
      | some module =>
          refine follows_runModule hwithin (fun holder' name' argument' current' hwithin' hlt => ?_)
            module current
          exact ih holder' name' argument' current' hwithin' (by omega)

/-- The evaluation of a text comes to an end. When operations may lie inside one another as deep as
the text is long, a watched evaluation is not exhausted and ends as evaluation does. Each text that
a module reads on the way is a part of the path that holds the operation, and shorter than it. -/
theorem evaluation_ends (env : Environment) (text : String) (depth : Nat)
    (hdepth : text.length ≤ depth) :
    ∃ readings, outcome (evaluate env depth text) [] =
        ((Expression.parse text >>= env.evaluate).mapError .failed, readings) ∧
      ∀ reading ∈ readings, reading.text.toList <:+: reading.holder.toList ∧
        reading.text.length < reading.holder.length := by
  have hfollows : Follows (evaluate env depth text) (Expression.parse text >>= env.evaluate) :=
    (Follows.ofResult _).bind fun _ hread =>
      follows_evaluateExpression (carries_operation depth) (Expression.fits_of_parse hread hdepth)
  obtain ⟨readings, houtcome, hwithin⟩ := hfollows [] (List.forall_mem_nil _)
  exact ⟨readings, houtcome, hwithin⟩

/-- An environment without bindings. -/
def bare : Environment where
  scope := {}
  globals := { root := .null }

/-- An operation in the argument of an operation is read when it is its turn. -/
theorem evaluation_ends_nested :
    "not:here/path:string:none".length ≤ 25 ∧
    ∃ readings, outcome (evaluate bare 25 "not:here/path:string:none") [] =
        ((Expression.parse "not:here/path:string:none" >>= bare.evaluate).mapError .failed,
          readings) ∧
      (∀ reading ∈ readings, reading.text.toList <:+: reading.holder.toList ∧
        reading.text.length < reading.holder.length) ∧
      readings = [⟨"here/path:string:none", "string:none"⟩, ⟨"string:none", "none"⟩] := by
  have hnoted : (outcome (evaluate bare 25 "not:here/path:string:none") []).2 =
      [⟨"here/path:string:none", "string:none"⟩, ⟨"string:none", "none"⟩] := by decide +kernel
  obtain ⟨readings, houtcome, hwithin⟩ :=
    evaluation_ends bare "not:here/path:string:none" 25 (by decide)
  rw [houtcome] at hnoted
  exact ⟨by decide, readings, houtcome, hwithin, hnoted⟩

end Watched

end PageTemplate
