import Mathlib.Logic.Relation
import PageTemplate.Proofs.Expression.Caching
import PageTemplate.Proofs.Expression.Operations
import PageTemplate.Render.Renderer

/-! # Malformed text in expressions

The text of a directive is read before anything is evaluated, and when it cannot be read the
failure is fatal. The argument of an operation is read only when the operation is carried out. If
it cannot be read, the operation fails like any other segment of a path, and handlers may recover
from that. In both cases nothing is tried in place of the malformed text.
-/

namespace PageTemplate

open Markup Text

/-! ## Failures -/

/-- If there is a failure, it has the property. -/
def FailsAs {ε α : Type} (P : ε → Prop) (result : Except ε α) : Prop :=
  ∀ fault, result = .error fault → P fault

namespace FailsAs

variable {ε δ α β : Type} {P : ε → Prop} {result : Except ε α}

protected theorem ok (a : α) : FailsAs P (.ok a : Except ε α) := nofun

protected theorem error {fault : ε} (h : P fault) : FailsAs P (.error fault : Except ε α) :=
  fun _ hfault => Except.error.inj hfault ▸ h

protected theorem bind {next : α → Except ε β} (h : FailsAs P result)
    (hnext : ∀ a, FailsAs P (next a)) : FailsAs P (result >>= next) := by
  cases result with
  | error fault => exact .error (h fault rfl)
  | ok a => exact hnext a

protected theorem map (h : FailsAs P result) (f : α → β) : FailsAs P (result.map f) := by
  cases result with
  | error fault => exact .error (h fault rfl)
  | ok a => exact .ok (f a)

protected theorem mapM {f : β → Except ε α} (hf : ∀ b, FailsAs P (f b)) (items : List β) :
    FailsAs P (items.mapM f) := by
  induction items with
  | nil => exact .ok []
  | cons b items ih =>
      rw [List.mapM_cons]
      exact (hf b).bind fun _ => ih.bind fun _ => .ok _

end FailsAs

/-- A text that cannot be read is malformed, whatever the reason. -/
abbrev ExpressionError.OfReading (fault : ExpressionError) : Prop := fault.isMalformed = true

theorem Path.failsAs_parseChars (input : List Char) :
    FailsAs ExpressionError.OfReading (Path.parseChars input) := by
  unfold Path.parseChars
  dsimp only
  split
  · exact .error rfl
  · split
    · exact .ok _
    · exact .error rfl

theorem StringPart.failsAs_parseChars (input : List Char) :
    FailsAs ExpressionError.OfReading (StringPart.parseChars input) := by
  unfold StringPart.parseChars
  split
  · refine .mapM (fun raw => ?_) _
    cases raw with
    | literal text => exact .ok _
    | substitution text => exact (Path.failsAs_parseChars text).map _
  · exact .error rfl

theorem Expression.failsAs_parseChars (input : List Char) :
    FailsAs ExpressionError.OfReading (Expression.parseChars input) := by
  fun_induction Expression.parseChars input with
  | case1 => exact (StringPart.failsAs_parseChars _).map _
  | case2 _ _ _ ih => exact ih.map _
  | case3 => exact (Path.failsAs_parseChars _).map _
  | case4 => exact (Path.failsAs_parseChars _).map _
  | case5 => exact (Path.failsAs_parseChars _).map _

namespace Environment

variable {env : Environment} {operate : Operate}

/-- All alternates of a path were tried, and all failed. -/
abbrev OfTrying (fault : ExpressionError) : Prop :=
  ∃ text attempts, fault = .allFailed text attempts

theorem failsAs_pathWith (start : Option Value) (path : Path) :
    FailsAs OfTrying (env.pathWith operate start path) := by
  unfold pathWith
  cases env.tryAlternates operate start path.alternates with
  | ok value => exact .ok value
  | error attempts => exact .error ⟨path.text, attempts, rfl⟩

theorem failsAs_stringWith (parts : List StringPart) :
    FailsAs OfTrying (env.stringWith operate parts) := by
  induction parts with
  | nil => exact .ok ""
  | cons part parts ih =>
      cases part with
      | literal text =>
          rw [stringWith]
          exact ih.bind fun _ => .ok _
      | substitution path =>
          rw [stringWith]
          exact (failsAs_pathWith none path).bind fun _ => ih.bind fun _ => .ok _

/-- When a text could be read, what fails is a path, whatever its operations found. -/
theorem failsAs_evaluateWith (expression : Expression) :
    FailsAs OfTrying (env.evaluateWith operate expression) := by
  induction expression with
  | path p => exact failsAs_pathWith none p
  | string parts =>
      rw [evaluateWith]
      exact (failsAs_stringWith parts).bind fun _ => .ok _
  | negation inner ih =>
      rw [evaluateWith]
      exact ih.bind fun _ => .ok _
  | existence p => exact .ok _

end Environment

/-! ## The course of an evaluation -/

/-- A part of an evaluation. -/
inductive Evaluation where
  | expression (expression : Expression)
  /-- With a `start`, the first segment is looked up on it. -/
  | path (start : Option Value) (path : Path)
  | operation (module argument : String) (current : Option Value)

namespace Environment

variable (env : Environment)

/-- What a module reads its argument as, or the fault when the text cannot be read. A module of the
host reads nothing. -/
inductive Reads (argument : String) (current : Option Value) :
    Module → Except ExpressionError Evaluation → Prop
  | string : Reads argument current .string
      ((StringPart.parse argument).map fun parts => .expression (.string parts))
  | negation (hwritten : (trim argument.toList).isEmpty = false) :
    Reads argument current .negation ((Expression.parse argument).map .expression)
  | path : Reads argument current .path ((Path.parse argument).map (.path current))
  | existence : Reads argument current .existence ((Path.parse argument).map (.path current))
  | source {source callable : String} (hhalves : pipeHalves argument = some (source, callable)) :
    Reads argument current .pipe ((Path.parse source).map (.path current))
  | callable {source callable : String} {value : Value}
    (hhalves : pipeHalves argument = some (source, callable))
    (hsource : Path.parse source >>= env.evaluateFrom current = .ok value) :
    Reads argument current .pipe ((Expression.parse callable).map .expression)

/-- A walk along the segments comes to an operation, with the value so far. -/
inductive Meets : Option Value → List Segment → String → String → Option Value → Prop
  | here {module argument : String} {current : Option Value} {segments : List Segment} :
    Meets current (.operation module argument :: segments) module argument current
  | later {segment : Segment} {segments : List Segment} {value : Value} {module argument : String}
    {current reached : Option Value} (hstep : env.step env.operation current segment = .ok value)
    (h : Meets (some value) segments module argument reached) :
    Meets current (segment :: segments) module argument reached

/-- An alternate of the path is tried: those in front of it have failed. The others are `later`. -/
def Tries (start : Option Value) (path : Path) (alternate : List Segment)
    (later : List (List Segment)) : Prop :=
  ∃ failed, path.alternates = failed ++ alternate :: later ∧
    ∀ other ∈ failed, ∃ fault, env.walk env.operation start other = .error fault

/-- A part of an evaluation that is carried out on the way. -/
inductive Leads : Evaluation → Evaluation → Prop
  | path {path : Path} : Leads (.expression (.path path)) (.path none path)
  | substitution {before after : List StringPart} {path : Path} {text : String}
    (hbefore : env.stringWith env.operation before = .ok text) :
    Leads (.expression (.string (before ++ .substitution path :: after))) (.path none path)
  | negation {inner : Expression} : Leads (.expression (.negation inner)) (.expression inner)
  | existence {path : Path} : Leads (.expression (.existence path)) (.path none path)
  | alternate {start current : Option Value} {path : Path} {alternate : List Segment}
    {later : List (List Segment)} {module argument : String}
    (htries : env.Tries start path alternate later)
    (hmeets : env.Meets start alternate module argument current) :
    Leads (.path start path) (.operation module argument current)
  | argument {name argument : String} {current : Option Value} {module : Module}
    {next : Evaluation} (hmodule : env.modules.lookup name = some module)
    (hreads : env.Reads argument current module (.ok next)) :
    Leads (.operation name argument current) next

/-- All that is carried out in the course of an evaluation. -/
abbrev Reaches : Evaluation → Evaluation → Prop := Relation.ReflTransGen env.Leads

/-- The operation comes upon malformed text in its argument. -/
def Misreads : Evaluation → Prop
  | .operation name argument current => ∃ module fault,
    env.modules.lookup name = some module ∧ env.Reads argument current module (.error fault)
  | _ => False

end Environment

/-- The paths were read from text. -/
def Evaluation.IsRead : Evaluation → Prop
  | .expression written => ∃ bound, written.Tapers bound
  | .path _ written => ∃ bound, written.Tapers bound
  | .operation .. => True

/-- On the way along an alternate, malformed text is come upon, in the argument of an operation or
in one that is carried out inside of it. -/
def Environment.ComesUponMalformed (env : Environment) (start : Option Value)
    (alternate : List Segment) : Prop :=
  ∃ module argument current misread, env.Meets start alternate module argument current ∧
    env.Reaches (.operation module argument current) misread ∧ env.Misreads misread

namespace Environment

variable {env : Environment}

theorem Reads.isRead {argument : String} {current : Option Value} {module : Module}
    {next : Evaluation} (h : env.Reads argument current module (.ok next)) : next.IsRead := by
  generalize houtcome : (Except.ok next : Except ExpressionError Evaluation) = outcome at h
  cases h with
  | string =>
      obtain ⟨parts, hparts, rfl⟩ := exists_ok_of_map houtcome.symm
      exact ⟨_, StringPart.tapers_parseChars hparts⟩
  | negation =>
      obtain ⟨inner, hinner, rfl⟩ := exists_ok_of_map houtcome.symm
      exact ⟨_, Expression.tapers_parseChars hinner⟩
  | path =>
      obtain ⟨path, hpath, rfl⟩ := exists_ok_of_map houtcome.symm
      exact ⟨_, Path.tapers_parseChars hpath⟩
  | existence =>
      obtain ⟨path, hpath, rfl⟩ := exists_ok_of_map houtcome.symm
      exact ⟨_, Path.tapers_parseChars hpath⟩
  | source =>
      obtain ⟨path, hpath, rfl⟩ := exists_ok_of_map houtcome.symm
      exact ⟨_, Path.tapers_parseChars hpath⟩
  | callable =>
      obtain ⟨inner, hinner, rfl⟩ := exists_ok_of_map houtcome.symm
      exact ⟨_, Expression.tapers_parseChars hinner⟩

theorem Leads.isRead {evaluation next : Evaluation} (h : env.Leads evaluation next)
    (hread : evaluation.IsRead) : next.IsRead := by
  cases h with
  | path => exact hread
  | substitution =>
      obtain ⟨bound, hparts⟩ := hread
      exact ⟨bound, hparts (.substitution _) (List.mem_append_right _ List.mem_cons_self)⟩
  | negation => exact hread
  | existence => exact hread
  | alternate => trivial
  | argument _ hreads => exact hreads.isRead

/-- Whatever is carried out in the course of an evaluation was read from text. -/
theorem isRead_of_reaches {evaluation next : Evaluation} (h : env.Reaches evaluation next)
    (hread : evaluation.IsRead) : next.IsRead := by
  induction h with
  | refl => exact hread
  | tail _ hleads ih => exact hleads.isRead ih

/-- An operation whose argument cannot be read fails. -/
theorem Misreads.operation_eq_error {name argument : String} {current : Option Value}
    (h : env.Misreads (.operation name argument current)) :
    ∃ fault, env.operation name argument current = .error fault := by
  obtain ⟨module, fault, hmodule, hreads⟩ := h
  rw [operation_eq, hmodule]
  generalize houtcome : (Except.error fault : Except ExpressionError Evaluation) = outcome at hreads
  cases hreads with
  | string =>
      refine ⟨fault, ?_⟩
      show StringPart.parse argument >>= _ = _
      rw [error_of_map houtcome.symm]
      rfl
  | negation hwritten =>
      refine ⟨fault, ?_⟩
      unfold runModule
      dsimp only
      rw [if_neg (by simp [hwritten]), error_of_map houtcome.symm]
      rfl
  | path =>
      refine ⟨fault, ?_⟩
      show Path.parse argument >>= _ = _
      rw [error_of_map houtcome.symm]
      rfl
  | existence =>
      refine ⟨fault, ?_⟩
      show Path.parse argument >>= _ = _
      rw [error_of_map houtcome.symm]
      rfl
  | source hhalves =>
      unfold runModule pipeWith
      dsimp only
      rw [hhalves]
      dsimp only
      rw [error_of_map houtcome.symm]
      exact ⟨_, rfl⟩
  | callable hhalves hsource =>
      unfold evaluateFrom at hsource
      unfold runModule pipeWith
      dsimp only
      rw [hhalves]
      dsimp only
      rw [hsource]
      dsimp only
      rw [error_of_map houtcome.symm]
      exact ⟨_, rfl⟩

theorem Meets.mem {start current : Option Value} {alternate : List Segment}
    {module argument : String} (h : env.Meets start alternate module argument current) :
    .operation module argument ∈ alternate := by
  induction h with
  | here => exact List.mem_cons_self
  | later _ _ ih => exact List.mem_cons_of_mem _ ih

/-- An alternate fails when an operation in it does. -/
theorem Meets.walk_eq_error {start current : Option Value} {alternate : List Segment}
    {module argument : String} {fault : ExpressionError}
    (h : env.Meets start alternate module argument current)
    (hfault : env.operation module argument current = .error fault) :
    env.walk env.operation start alternate = .error fault := by
  induction h with
  | here =>
      rw [walk, step, hfault]
      rfl
  | later hstep _ ih =>
      rw [walk, hstep]
      exact ih hfault

/-- No alternate follows the one in which an operation stands. -/
theorem Tries.later_eq_nil {start current : Option Value} {path : Path} {alternate : List Segment}
    {later : List (List Segment)} {module argument : String} {bound : Nat}
    (h : env.Tries start path alternate later) (hpath : path.Tapers bound)
    (hmeets : env.Meets start alternate module argument current) : later = [] := by
  obtain ⟨failed, halternates, -⟩ := h
  have hlast := hpath.last
  rw [halternates, List.map_append, List.map_cons, List.pairwise_append] at hlast
  cases later with
  | nil => rfl
  | cons other others =>
      have hnone := (List.pairwise_cons.mp hlast.2.1).1 _ List.mem_cons_self _
        (List.mem_map_of_mem hmeets.mem)
      cases hnone

/-- A path fails when the last alternate does and all others have failed. -/
theorem Tries.evaluateFrom_eq_error {start : Option Value} {path : Path} {alternate : List Segment}
    {fault : ExpressionError} (h : env.Tries start path alternate [])
    (hfault : env.walk env.operation start alternate = .error fault) :
    ∃ attempts,
      env.evaluateFrom start path = .error (.allFailed path.text (attempts ++ [fault])) := by
  obtain ⟨failed, halternates, hfailed⟩ := h
  have htry : ∃ attempts, env.tryAlternates env.operation start (failed ++ [alternate]) =
      .error (attempts ++ [fault]) := by
    clear halternates
    induction failed with
    | nil =>
        refine ⟨[], ?_⟩
        rw [List.nil_append, tryAlternates, hfault]
        rfl
    | cons other failed ih =>
        obtain ⟨⟨fault', hother⟩, hrest⟩ := List.forall_mem_cons.mp hfailed
        obtain ⟨attempts, hattempts⟩ := ih hrest
        refine ⟨fault' :: attempts, ?_⟩
        rw [List.cons_append, tryAlternates, hother, hattempts]
        rfl
  obtain ⟨attempts, hattempts⟩ := htry
  refine ⟨attempts, ?_⟩
  unfold evaluateFrom pathWith
  rw [halternates, hattempts]
  rfl

end Environment

/-! ## Directives -/

/-- The evaluation of a directive's text ends with a fatal failure exactly when the text cannot be
read. Where an operation comes upon malformed text, its path fails like any other, and no alternate
is left that would be tried instead, be it of that path or of one around it. -/
theorem Context.fails_fatally_iff_malformed (ctx : Context) (settings : Settings) {s : RenderState}
    (hcache : s.cache.IsFaithful) (spec : AttributeSpec) (text : String) :
    ((∃ error s', outcome (ctx.evaluateDirective settings spec text) s =
        (.error (.failed error), s') ∧ error.isRecoverable = false) ↔
      ∃ fault, Expression.parse text = .error fault) ∧
    ∀ expression, Expression.parse text = .ok expression →
      let env := ctx.environment settings s.globals
      ∀ start path alternate later, env.Reaches (.expression expression) (.path start path) →
        env.Tries start path alternate later →
        (env.ComesUponMalformed start alternate → later = []) ∧
        ∀ module argument current, env.Meets start alternate module argument current →
          env.Misreads (.operation module argument current) →
          ∃ attempts, env.evaluateFrom start path = .error (.allFailed path.text attempts) := by
  refine ⟨?_, ?_⟩
  · rw [ctx.outcome_evaluateDirective settings hcache]
    cases hparse : Expression.parse text with
    | error fault =>
        have hfatal := Expression.failsAs_parseChars _ _ hparse
        refine ⟨fun _ => ⟨fault, rfl⟩, fun _ => ⟨_, _, rfl, ?_⟩⟩
        simp [RenderError.isRecoverable, hfatal]
    | ok expression =>
        refine ⟨?_, nofun⟩
        rintro ⟨error, s', herror, hfatal⟩
        change (Except.mapError _ ((ctx.environment settings s.globals).evaluate expression), _) = _
          at herror
        cases hvalue : (ctx.environment settings s.globals).evaluate expression with
        | ok value =>
            rw [hvalue] at herror
            cases herror
        | error source =>
            obtain ⟨failed, attempts, rfl⟩ :=
              Environment.failsAs_evaluateWith expression _ hvalue
            rw [hvalue] at herror
            cases herror
            cases hfatal
  · intro expression hparse env start path alternate later hreaches htries
    have hread : Evaluation.IsRead (.path start path) :=
      Environment.isRead_of_reaches hreaches ⟨_, Expression.tapers_parseChars hparse⟩
    obtain ⟨bound, hpath⟩ := hread
    refine ⟨?_, fun module argument current hmeets hmisreads => ?_⟩
    · rintro ⟨module, argument, current, -, hmeets, -, -⟩
      exact htries.later_eq_nil hpath hmeets
    · obtain rfl := htries.later_eq_nil hpath hmeets
      obtain ⟨fault, hfault⟩ := hmisreads.operation_eq_error
      obtain ⟨attempts, hattempts⟩ := htries.evaluateFrom_eq_error (hmeets.walk_eq_error hfault)
      exact ⟨_, hattempts⟩

/-! ## A page with a slip -/

/-- A page with a paragraph whose content is an operation on a path with an empty segment. -/
def slippedPage : Document where
  nodes := #[
    { kind := .root, children := [1] },
    { kind := .element (.named "r"), parent := some 0, children := [2] },
    { kind := .element {
        name := .parse "p"
        attributes := [⟨.parse "tal:on-error", "string:recovered"⟩,
          ⟨.parse "tal:content", "here/string:$\x7ba//b\x7d"⟩] },
      parent := some 1 }]

namespace slippedPage

/-- The argument of the operation. -/
def argument : String := "$\x7ba//b\x7d"

/-- The path that the content of the paragraph is read as. -/
def path : Path where
  text := "here/string:$\x7ba//b\x7d"
  scope := none
  alternates := [[.name "here", .operation "string" argument]]

def start : RenderState := Renderer.start slippedPage (.map []) {}

def ctx : Context := .ofNode slippedPage 2 {}

def env : Environment := ctx.environment {} start.globals

theorem parse_eq : Expression.parse path.text = .ok (.path path) :=
  eq_ok_of_toOption (by decide +kernel)

theorem reaches : env.Reaches (.expression (.path path)) (.path none path) :=
  .single .path

theorem tries :
    env.Tries none path [.name "here", .operation "string" argument] [] :=
  ⟨[], rfl, by simp⟩

theorem meets : env.Meets none [.name "here", .operation "string" argument] "string"
    argument (some (.map [])) :=
  .later rfl .here

theorem misreads : env.Misreads (.operation "string" argument (some (.map []))) := by
  have hnone : (StringPart.parse argument).toOption.isNone = true := by decide +kernel
  obtain ⟨fault, hfault⟩ := exists_error_of_toOption hnone
  have hreads : env.Reads argument (some (.map [])) .string
      ((StringPart.parse argument).map fun parts => .expression (.string parts)) := .string
  rw [hfault] at hreads
  exact ⟨.string, fault, rfl, hreads⟩

/-- Evaluating the text for the paragraph's content fails, with an error that a handler may recover
from. -/
def recovers (text : String) : Bool :=
  match (outcome (ctx.evaluateDirective {} ({} : Vocabularies).content text) start).1 with
  | .error (.failed error) => error.isRecoverable
  | _ => false

theorem exists_recoverable :
    ∃ error s', outcome (ctx.evaluateDirective {} ({} : Vocabularies).content path.text) start =
      (.error (.failed error), s') ∧ error.isRecoverable = true := by
  have hrecovers : recovers path.text = true := by decide +kernel
  unfold recovers at hrecovers
  split at hrecovers
  next error herror => exact ⟨error, _, Prod.ext herror rfl, hrecovers⟩
  next => cases hrecovers

end slippedPage

open slippedPage in
theorem Context.fails_fatally_iff_malformed_slippedPage :
    let evaluate := ctx.evaluateDirective {} ({} : Vocabularies).content
    start.cache.IsFaithful ∧
      (∃ error s', outcome (evaluate "a//b") start = (.error (.failed error), s') ∧
        error.isRecoverable = false) ∧
      (¬ ∃ error s', outcome (evaluate path.text) start = (.error (.failed error), s') ∧
        error.isRecoverable = false) ∧
      ∃ attempts,
        slippedPage.env.evaluateFrom none path = .error (.allFailed path.text attempts) := by
  have hmalformed : (Expression.parse "a//b").toOption.isNone = true := by decide +kernel
  have hslip := ctx.fails_fatally_iff_malformed {} (s := start) ExpressionCache.isFaithful_empty
    ({} : Vocabularies).content path.text
  refine ⟨ExpressionCache.isFaithful_empty, ?_, fun hfatal => ?_, ?_⟩
  · exact (ctx.fails_fatally_iff_malformed {} ExpressionCache.isFaithful_empty _ "a//b").1.mpr
      (exists_error_of_toOption hmalformed)
  · obtain ⟨fault, hfault⟩ := hslip.1.mp hfatal
    rw [parse_eq] at hfault
    cases hfault
  · exact (hslip.2 _ parse_eq none path _ _ reaches tries).2 _ _ _ meets misreads

/-- Malformed text in the argument of an operation is not fatal. -/
theorem Context.not_malformed_argument_fatal_slippedPage :
    ¬ ∀ (ctx : Context) (settings : Settings) (s s' : RenderState) (spec : AttributeSpec)
      (text : String) (expression : Expression) (misread : Evaluation) (error : RenderError),
      Expression.parse text = .ok expression →
      (ctx.environment settings s.globals).Reaches (.expression expression) misread →
      (ctx.environment settings s.globals).Misreads misread →
      outcome (ctx.evaluateDirective settings spec text) s = (.error (.failed error), s') →
      error.isRecoverable = false := by
  intro hfatal
  obtain ⟨error, s', herror, hrecoverable⟩ := slippedPage.exists_recoverable
  have hreaches := slippedPage.reaches.tail (.alternate slippedPage.tries slippedPage.meets)
  have hfalse := hfatal _ _ _ _ _ _ _ _ error slippedPage.parse_eq hreaches slippedPage.misreads
    herror
  rw [hrecoverable] at hfalse
  cases hfalse

end PageTemplate
