import PageTemplate.Expression.Evaluator
import PageTemplate.Proofs.Keyed

/-! # The macros that values hold

A value holds the macros that looking into it can bring out. Evaluating an expression brings out
only macros of the values that the expression sees, as long as the functions and modules of the
host make up none.
-/

namespace PageTemplate

variable {P Q : MacroRef → Prop}

/-- All macros that the value holds have the property. -/
inductive Value.AllMacros (P : MacroRef → Prop) : Value → Prop where
  | null : AllMacros P .null
  | keep : AllMacros P .keep
  | bool (b : Bool) : AllMacros P (.bool b)
  | int (i : Int) : AllMacros P (.int i)
  | float (x : Float) : AllMacros P (.float x)
  | string (s : String) : AllMacros P (.string s)
  | list {items : List Value} (hitems : ∀ value ∈ items, AllMacros P value) :
    AllMacros P (.list items)
  | map {entries : List (String × Value)} (hentries : ∀ entry ∈ entries, AllMacros P entry.2) :
    AllMacros P (.map entries)
  | macroRef {reference : MacroRef} (h : P reference) : AllMacros P (.macroRef reference)
  | object {o : HostObject Value}
    (haliased : ∀ name value, o.aliased name = .ok (some value) → AllMacros P value)
    (hmember : ∀ name value, o.member name = .ok (some value) → AllMacros P value)
    (hindex : ∀ name value, o.index name = .ok (some value) → AllMacros P value)
    (hitems : ∀ items, o.items = some items → ∀ value ∈ items, AllMacros P value) :
    AllMacros P (.object o)

/-- The value holds no macro. -/
def Value.MacroFree (value : Value) : Prop := value.AllMacros fun _ => False

namespace Value.AllMacros

variable {value : Value}

theorem mono (h : value.AllMacros P) (himp : ∀ reference, P reference → Q reference) :
    value.AllMacros Q := by
  induction h with
  | null => exact .null
  | keep => exact .keep
  | bool b => exact .bool b
  | int i => exact .int i
  | float x => exact .float x
  | string s => exact .string s
  | list _ ih => exact .list ih
  | map _ ih => exact .map ih
  | macroRef h => exact .macroRef (himp _ h)
  | object _ _ _ _ haliased hmember hindex hitems => exact .object haliased hmember hindex hitems

theorem of_macroFree (h : value.MacroFree) : value.AllMacros P := h.mono fun _ => False.elim

theorem asMacro {reference : MacroRef} (h : value.AllMacros P)
    (hvalue : value.asMacro? = some reference) : P reference := by
  cases h <;> cases hvalue
  assumption

theorem items {found : List Value} (h : value.AllMacros P) (hvalue : value.items? = some found) :
    ∀ item ∈ found, item.AllMacros P := by
  cases h with
  | list hitems =>
      obtain rfl := Option.some.inj hvalue
      exact hitems
  | map hentries =>
      obtain rfl := Option.some.inj hvalue
      intro item hitem
      obtain ⟨entry, hentry, rfl⟩ := List.mem_map.mp hitem
      exact hentries entry hentry
  | object _ _ _ hitems => exact hitems found hvalue
  | _ => cases hvalue

end Value.AllMacros

/-- If there is a result, its macros have the property. -/
def Yields (P : MacroRef → Prop) {ε : Type} (result : Except ε Value) : Prop :=
  ∀ value, result = .ok value → value.AllMacros P

/-! ## What expressions see -/

structure Scope.AllMacros (P : MacroRef → Prop) (scope : Scope) : Prop where
  bindings : ∀ entry ∈ scope.frame.bindings, entry.2.AllMacros P
  repetitions : ∀ entry ∈ scope.frame.repetitions, entry.2.item.AllMacros P
  caught : ∀ value, scope.frame.caught = some value → value.AllMacros P

structure Globals.AllMacros (P : MacroRef → Prop) (globals : Globals) : Prop where
  root : globals.root.AllMacros P
  bindings : ∀ entry ∈ globals.bindings, entry.2.AllMacros P

/-- The function makes up no macros: its result holds only macros of its argument. -/
def HostFunction.IsFaithful (f : HostFunction) : Prop :=
  ∀ (P : MacroRef → Prop) (argument : Value), argument.AllMacros P → Yields P (f argument)

/-- The module makes up no macros. -/
def Module.IsFaithful : Module → Prop
  | .host run => ∀ (P : MacroRef → Prop) (current : Option Value) (argument : String),
    (∀ value, current = some value → value.AllMacros P) → Yields P (run current argument)
  | _ => True

namespace Scope.AllMacros

variable {scope : Scope}

theorem empty : AllMacros P {} := ⟨by simp, by simp, by simp⟩

theorem child (h : scope.AllMacros P) : scope.child.AllMacros P :=
  ⟨h.bindings, h.repetitions, h.caught⟩

theorem sibling (h : scope.AllMacros P) : scope.sibling.AllMacros P :=
  ⟨h.bindings, h.repetitions, h.caught⟩

theorem bind (h : scope.AllMacros P) {name : String} {value : Value} (hvalue : value.AllMacros P) :
    (scope.bind name value).AllMacros P := by
  refine ⟨fun entry hentry => ?_, h.repetitions, h.caught⟩
  rcases Keyed.mem_insert hentry with rfl | hentry
  · exact hvalue
  · exact h.bindings entry hentry

theorem bindRepetition (h : scope.AllMacros P) {r : Repetition} (hitem : r.item.AllMacros P) :
    (scope.bindRepetition r).AllMacros P := by
  refine ⟨fun entry hentry => ?_, fun entry hentry => ?_, h.caught⟩
  · rcases Keyed.mem_insert hentry with rfl | hentry
    · exact hitem
    · exact h.bindings entry hentry
  · rcases Keyed.mem_insert hentry with rfl | hentry
    · exact hitem
    · exact h.repetitions entry hentry

theorem setCaught (h : scope.AllMacros P) {error : Value} (herror : error.AllMacros P) :
    (scope.setCaught error).AllMacros P :=
  ⟨h.bindings, h.repetitions, fun _ hvalue => Option.some.inj hvalue ▸ herror⟩

theorem mono (h : scope.AllMacros P) (himp : ∀ reference, P reference → Q reference) :
    scope.AllMacros Q :=
  ⟨fun entry hentry => (h.bindings entry hentry).mono himp,
    fun entry hentry => (h.repetitions entry hentry).mono himp,
    fun value hvalue => (h.caught value hvalue).mono himp⟩

end Scope.AllMacros

namespace Globals.AllMacros

variable {globals : Globals}

theorem bind (h : globals.AllMacros P) {name : String} {value : Value}
    (hvalue : value.AllMacros P) : (globals.bind name value).AllMacros P := by
  refine ⟨h.root, fun entry hentry => ?_⟩
  rcases Keyed.mem_insert hentry with rfl | hentry
  · exact hvalue
  · exact h.bindings entry hentry

theorem mono (h : globals.AllMacros P) (himp : ∀ reference, P reference → Q reference) :
    globals.AllMacros Q :=
  ⟨h.root.mono himp, fun entry hentry => (h.bindings entry hentry).mono himp⟩

end Globals.AllMacros

/-- The error that a handler sees holds no macro. -/
theorem allMacros_caughtError (kind message : String) :
    (Value.object (caughtError kind message)).AllMacros P := by
  refine .object (by simp [caughtError]) (fun name value h => ?_) (by simp [caughtError])
    (by simp [caughtError])
  unfold caughtError at h
  have hvalue := Except.ok.inj h
  split at hvalue
  · exact Option.some.inj hvalue ▸ .string _
  · exact Option.some.inj hvalue ▸ .string _
  · exact Option.some.inj hvalue ▸ .string _
  · cases hvalue

theorem Repetition.allMacros_object {r : Repetition} (hitem : r.item.AllMacros P) :
    (Value.object r.object).AllMacros P := by
  refine .object (by simp [object]) (fun name value h => ?_) (by simp [object]) (by simp [object])
  have hvalue : r.member name = some value := Except.ok.inj h
  unfold member at hvalue
  split at hvalue <;> cases hvalue
  all_goals first
    | exact hitem
    | exact .bool _
    | exact .string _
    | exact .int _

/-- What an expression sees holds only macros with the property, and the host makes up none. -/
structure Environment.AllMacros (P : MacroRef → Prop) (env : Environment) : Prop where
  scope : env.scope.AllMacros P
  globals : env.globals.AllMacros P
  options : ∀ entry ∈ env.options, entry.2.AllMacros P
  functions : ∀ name f, env.functions name = some f → HostFunction.IsFaithful f
  modules : ∀ entry ∈ env.modules, entry.2.IsFaithful

/-! ## Evaluation -/

theorem yields_error {ε : Type} (error : ε) : Yields P (.error error : Except ε Value) :=
  fun _ h => by cases h

theorem yields_ok {ε : Type} {value : Value} (h : value.AllMacros P) :
    Yields P (.ok value : Except ε Value) :=
  fun _ hvalue => Except.ok.inj hvalue ▸ h

theorem yields_bind {ε α : Type} {result : Except ε α} {next : α → Except ε Value}
    (h : ∀ a, result = .ok a → Yields P (next a)) : Yields P (result >>= next) := by
  cases result with
  | error error => exact yields_error error
  | ok a => exact h a rfl

theorem yields_mapError {ε δ : Type} {result : Except ε Value} {f : ε → δ} (h : Yields P result) :
    Yields P (result.mapError f) := by
  cases result with
  | error error => exact yields_error (f error)
  | ok value => exact yields_ok (h value rfl)

namespace Strategy

variable {target value : Value} {segment : String}

theorem allMacros_find {strategy : Strategy} (htarget : target.AllMacros P)
    (h : strategy.find target segment = .ok (some value)) : value.AllMacros P := by
  unfold find at h
  split at h
  next =>
    cases htarget with
    | object haliased _ _ _ => exact haliased segment value h
  next => cases h
  next =>
    cases htarget with
    | object _ hmember _ _ => exact hmember segment value h
  next =>
    have hfound := Except.ok.inj h
    split at hfound
    · exact Option.some.inj hfound ▸ .int _
    · cases hfound
  next =>
    have hfound := Except.ok.inj h
    split at hfound
    · exact Option.some.inj hfound ▸ .int _
    · cases hfound
  next =>
    have hfound := Except.ok.inj h
    split at hfound
    · exact Option.some.inj hfound ▸ .string _
    · cases hfound
  next => cases h
  next =>
    cases htarget with
    | map hentries => exact hentries _ (Keyed.mem_of_lookup (Except.ok.inj h))
  next items =>
    cases htarget with
    | list hitems =>
        -- the segment is read as a position, and what stands there is an item
        obtain ⟨position, -, hposition⟩ := Option.bind_eq_some_iff.mp (Except.ok.inj h)
        exact hitems value (List.mem_of_getElem? hposition)
  next =>
    cases htarget with
    | object _ _ hindex _ => exact hindex segment value h
  next => cases h

theorem allMacros_findFirst {strategies : List Strategy} (htarget : target.AllMacros P)
    (h : findFirst target segment strategies = .ok (some value)) : value.AllMacros P := by
  induction strategies with
  | nil => cases h
  | cons strategy strategies ih =>
      unfold findFirst at h
      cases hfind : strategy.find target segment with
      | error error =>
          rw [hfind] at h
          cases h
      | ok found =>
          rw [hfind] at h
          cases found with
          | none => exact ih h
          | some found =>
              obtain rfl := Option.some.inj (Except.ok.inj h)
              exact allMacros_find htarget hfind

/-- Looking into a value brings out macros of the value. -/
theorem yields_resolve {strategies : List Strategy} (htarget : target.AllMacros P) :
    Yields P (resolve strategies target segment) := by
  unfold resolve
  split
  · exact yields_error _
  · refine yields_bind fun found hfound => ?_
    cases found with
    | none => exact yields_error _
    | some found => exact yields_ok (allMacros_findFirst htarget hfound)

end Strategy

namespace Environment

variable {env : Environment} {operate : Operate} {current : Option Value}

theorem allMacros_macros (henv : env.AllMacros P) : env.macros.AllMacros P := by
  unfold macros
  cases hlookup : env.globals.lookup macrosBinding with
  | none => exact .map (by simp)
  | some value => exact henv.globals.bindings _ (Keyed.mem_of_lookup hlookup)

theorem yields_builtin (henv : env.AllMacros P) (name : String) : Yields P (env.builtin name) := by
  have hmacros := allMacros_macros henv
  unfold builtin
  split
  · exact yields_ok henv.globals.root
  · exact yields_ok .null
  · exact yields_ok .keep
  · exact yields_ok (.bool true)
  · exact yields_ok (.bool false)
  · refine yields_ok (.map fun entry hentry => ?_)
    obtain ⟨⟨name, r⟩, hr, rfl⟩ := List.mem_map.mp hentry
    exact Repetition.allMacros_object (henv.scope.repetitions _ hr)
  · exact yields_ok (.map henv.options)
  · refine yields_ok (.map fun entry hentry => ?_)
    obtain ⟨⟨name, value⟩, -, rfl⟩ := List.mem_map.mp hentry
    exact .string value
  · exact yields_ok hmacros
  · refine yields_ok (.map fun entry hentry => ?_)
    obtain rfl := List.mem_singleton.mp hentry
    exact hmacros
  · cases hcaught : env.scope.caught? with
    | none => exact yields_error _
    | some value => exact yields_ok (henv.scope.caught value hcaught)
  · exact yields_error _

theorem yields_resolveRoot (henv : env.AllMacros P) (name : String) :
    Yields P (env.resolveRoot name) := by
  unfold resolveRoot
  split
  next value hlookup =>
    refine yields_ok ?_
    unfold Scope.lookup at hlookup
    cases hlocal : env.scope.lookupLocal name with
    | some found =>
        rw [hlocal] at hlookup
        obtain rfl := Option.some.inj hlookup
        exact henv.scope.bindings _ (Keyed.mem_of_lookup hlocal)
    | none =>
        rw [hlocal] at hlookup
        exact henv.globals.bindings _ (Keyed.mem_of_lookup hlookup)
  next => exact yields_builtin henv name

/-- Operations bring out only macros of the value that they start from. -/
def Keeps (P : MacroRef → Prop) (operate : Operate) : Prop :=
  ∀ module argument current, (∀ value, current = some value → value.AllMacros P) →
    Yields P (operate module argument current)

section

variable (henv : env.AllMacros P) (hoperate : Keeps P operate)

include henv

theorem yields_stepTo (hcurrent : ∀ value, current = some value → value.AllMacros P)
    (name : String) : Yields P (env.stepTo current name) := by
  unfold stepTo
  cases current with
  | none => exact yields_resolveRoot henv name
  | some value => exact Strategy.yields_resolve (hcurrent value rfl)

include hoperate

theorem yields_step (hcurrent : ∀ value, current = some value → value.AllMacros P)
    (segment : Segment) : Yields P (env.step operate current segment) := by
  cases segment with
  | name text => exact yields_stepTo henv hcurrent text
  | dynamic text => exact yields_bind fun value _ => yields_stepTo henv hcurrent value.text
  | operation module argument => exact hoperate module argument current hcurrent

theorem yields_walk (hcurrent : ∀ value, current = some value → value.AllMacros P)
    (segments : List Segment) : Yields P (env.walk operate current segments) := by
  induction segments generalizing current with
  | nil =>
      unfold walk
      refine yields_ok ?_
      cases current with
      | none => exact .null
      | some value => exact hcurrent value rfl
  | cons segment segments ih =>
      unfold walk
      refine yields_bind fun value hvalue => ih ?_
      rintro _ ⟨⟩
      exact yields_step henv hoperate hcurrent segment value hvalue

theorem yields_pathWith (hcurrent : ∀ value, current = some value → value.AllMacros P)
    (path : Path) : Yields P (env.pathWith operate current path) := by
  unfold pathWith
  refine yields_mapError ?_
  induction path.alternates with
  | nil => exact yields_error _
  | cons alternate alternates ih =>
      unfold tryAlternates
      split
      next value hvalue =>
        exact yields_ok (yields_walk henv hoperate hcurrent alternate value hvalue)
      next => exact yields_mapError ih

theorem yields_evaluateWith (expression : Expression) :
    Yields P (env.evaluateWith operate expression) := by
  cases expression with
  | path path => exact yields_pathWith henv hoperate (by simp) path
  | string parts => exact yields_bind fun s _ => yields_ok (.string s)
  | negation inner => exact yields_bind fun value _ => yields_ok (.bool _)
  | existence path => exact yields_ok (.bool _)

omit hoperate in
theorem yields_apply (written : String) {function argument : Value}
    (hargument : argument.AllMacros P) : Yields P (env.apply written function argument) := by
  unfold apply
  dsimp only
  split
  next o =>
    split
    next => exact yields_error _
    next run hrun =>
      obtain ⟨name, -, hfunction⟩ := Option.bind_eq_some_iff.mp hrun
      split
      next result hresult =>
        exact yields_ok (henv.functions name run hfunction P argument hargument result hresult)
      next => exact yields_error _
  next => exact yields_error _

theorem yields_pipeWith (hcurrent : ∀ value, current = some value → value.AllMacros P)
    (argument : String) : Yields P (env.pipeWith operate argument current) := by
  unfold pipeWith
  dsimp only
  split
  next => exact yields_error _
  next =>
    split
    next => exact yields_error _
    next value hvalue =>
      have hsource : value.AllMacros P :=
        yields_bind (fun path _ => yields_pathWith henv hoperate hcurrent path) value hvalue
      split
      next => exact yields_error _
      next => exact yields_apply henv _ hsource

theorem yields_runModule {module : Module} (hmodule : module.IsFaithful)
    (hcurrent : ∀ value, current = some value → value.AllMacros P) (argument : String) :
    Yields P (env.runModule operate module argument current) := by
  cases module with
  | string => exact yields_bind fun parts _ => yields_bind fun s _ => yields_ok (.string s)
  | negation =>
      unfold runModule
      dsimp only
      split
      · split
        · exact yields_ok (.bool _)
        · exact yields_error _
      · exact yields_bind fun inner _ => yields_bind fun value _ => yields_ok (.bool _)
  | path => exact yields_bind fun path _ => yields_pathWith henv hoperate hcurrent path
  | existence => exact yields_bind fun path _ => yields_ok (.bool _)
  | pipe => exact yields_pipeWith henv hoperate hcurrent argument
  | host run => exact hmodule P current argument hcurrent

end

theorem keeps_operation (henv : env.AllMacros P) : Keeps P env.operation := by
  intro name argument current hcurrent
  induction hlength : argument.length using Nat.strongRecOn generalizing name argument current with
  | ind length ih =>
      unfold operation
      split
      next => exact yields_error _
      next module hlookup =>
        have hmodule := henv.modules _ (Keyed.mem_of_lookup hlookup)
        refine yields_runModule henv ?_ hmodule hcurrent argument
        intro name' argument' current' hcurrent'
        dsimp only
        split
        next hlt => exact ih _ (hlength ▸ hlt) name' argument' current' hcurrent' rfl
        next => exact yields_error _

/-- Evaluating an expression brings out only macros of what the expression sees. -/
theorem yields_evaluate (henv : env.AllMacros P) (expression : Expression) :
    Yields P (env.evaluate expression) :=
  yields_evaluateWith henv (keeps_operation henv) expression

end Environment

end PageTemplate
