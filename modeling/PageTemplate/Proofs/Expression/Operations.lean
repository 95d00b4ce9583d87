import PageTemplate.Expression.Evaluator
import PageTemplate.Proofs.Ensures

/-! # Where operations stand

An operation takes all text that follows as its argument. So it stands in the last alternate of its
path, and its argument is shorter than the text that the path was read from. This is why evaluation
ends, and why the bound that the evaluator puts on arguments keeps nothing from being carried out.
-/

namespace PageTemplate

open Text

/-! ## Paths -/

/-- The length of the argument, when the segment is an operation. -/
def Segment.width? : Segment → Option Nat
  | .operation _ argument => some argument.length
  | _ => none

/-- The length of the argument, when the segment is an operation. -/
def Segment.Raw.width? : Segment.Raw → Option Nat
  | .operation _ argument => some argument.length
  | _ => none

/-- In a table of the widths of segments, only the last alternate has operations, and all widths
are below the bound. -/
structure Tapers (bound : Nat) (widths : List (List (Option Nat))) : Prop where
  last : widths.Pairwise fun alternate _ => ∀ width ∈ alternate, width = none
  below : ∀ alternate ∈ widths, ∀ width, some width ∈ alternate → width < bound

namespace Tapers

variable {bound bound' : Nat} {widths : List (List (Option Nat))}

theorem mono (h : Tapers bound widths) (hle : bound ≤ bound') : Tapers bound' widths :=
  ⟨h.last, fun alternate halternate width hwidth =>
    Nat.lt_of_lt_of_le (h.below alternate halternate width hwidth) hle⟩

/-- A name in front of the first alternate. -/
theorem addName {first : List (Option Nat)} (h : Tapers bound (first :: widths)) :
    Tapers bound ((none :: first) :: widths) := by
  obtain ⟨hfirst, hrest⟩ := List.pairwise_cons.mp h.last
  refine ⟨List.pairwise_cons.mpr ⟨fun other hother => ?_, hrest⟩, ?_⟩
  · exact List.forall_mem_cons.mpr ⟨rfl, hfirst other hother⟩
  · intro alternate halternate width hwidth
    rcases List.mem_cons.mp halternate with rfl | halternate
    · exact h.below first List.mem_cons_self width (by simpa using hwidth)
    · exact h.below alternate (List.mem_cons_of_mem _ halternate) width hwidth

/-- An alternate of one name in front of the others. -/
theorem addAlternate (h : Tapers bound widths) : Tapers bound ([none] :: widths) := by
  refine ⟨List.pairwise_cons.mpr ⟨fun _ _ => by simp, h.last⟩, ?_⟩
  intro alternate halternate width hwidth
  rcases List.mem_cons.mp halternate with rfl | halternate
  · simp at hwidth
  · exact h.below alternate halternate width hwidth

end Tapers

namespace Segment

theorem length_of_operation? {s module argument : List Char}
    (h : operation? s = some (module, argument)) : argument.length < s.length := by
  unfold operation? at h
  split at h
  next c module' argument' hmodule hargument =>
    cases h
    have hall := congrArg List.length (List.takeWhile_append_dropWhile (p := isModuleChar) (l := s))
    rw [hmodule, hargument] at hall
    simp only [List.length_append, List.length_cons] at hall
    omega
  · cases h

theorem tapers_splitAll (s : List Char) :
    Tapers s.length (((splitAll s).1 :: (splitAll s).2).map (·.map Raw.width?)) := by
  have hbody : ∀ s : List Char, (s.dropWhile isMarkupBlank).length ≤ s.length := fun s =>
    (List.dropWhile_suffix isMarkupBlank).length_le
  have hrest : ∀ {s rest : List Char} {c : Char},
      (s.dropWhile isMarkupBlank).dropWhile isSegmentChar = c :: rest →
        rest.length ≤ s.length := by
    intro s rest c h
    have hdropped := (List.dropWhile_suffix (l := s.dropWhile isMarkupBlank)
      isSegmentChar).length_le
    rw [h, List.length_cons] at hdropped
    exact Nat.le_trans (Nat.le_of_succ_le hdropped) (hbody s)
  fun_induction splitAll s with
  | case1 s body module argument hoperation =>
      have hlength := Nat.lt_of_lt_of_le (length_of_operation? hoperation) (hbody s)
      refine ⟨List.pairwise_singleton _ _, fun alternate halternate width hwidth => ?_⟩
      obtain rfl := List.mem_singleton.mp halternate
      obtain rfl : width = argument.length := by simpa [Raw.width?] using hwidth
      exact hlength
  | case2 s body _ word _ =>
      refine ⟨List.pairwise_singleton _ _, fun alternate halternate width hwidth => ?_⟩
      obtain rfl := List.mem_singleton.mp halternate
      simp [Raw.width?] at hwidth
  | case3 s _ _ _ rest first others hsplit hslash ih =>
      rw [hsplit] at ih
      exact (ih.mono (hrest hslash)).addName
  | case4 s _ _ _ _ rest hbar first others hsplit _ ih =>
      rw [hsplit] at ih
      exact (ih.mono (hrest hbar)).addAlternate

theorem width?_ofRaw {starts : Bool} {raw : Raw} {segment : Segment}
    (h : ofRaw starts raw = .ok segment) : segment.width? = raw.width? := by
  unfold ofRaw at h
  split at h
  · cases h
    simp [width?, Raw.width?]
  · repeat' split at h
    all_goals cases h
    all_goals rfl

theorem widths_ofRaws {raws : List Raw} {segments : List Segment}
    (h : ofRaws raws = .ok segments) : segments.map width? = raws.map Raw.width? := by
  cases raws with
  | nil =>
      cases h
      rfl
  | cons raw raws =>
      unfold ofRaws at h
      obtain ⟨first, hfirst, h⟩ := exists_ok_of_bind h
      obtain ⟨rest, hrest, h⟩ := exists_ok_of_bind h
      cases h
      rw [List.map_cons, List.map_cons, width?_ofRaw hfirst,
        map_eq_of_mapM_ok (fun _ _ => width?_ofRaw) hrest]

end Segment

/-- Only the last alternate of the path has operations, and their arguments are shorter than the
bound. -/
def Path.Tapers (bound : Nat) (path : Path) : Prop :=
  PageTemplate.Tapers bound (path.alternates.map (·.map Segment.width?))

theorem Path.Tapers.mono {path : Path} {bound bound' : Nat} (h : path.Tapers bound)
    (hle : bound ≤ bound') : path.Tapers bound' :=
  PageTemplate.Tapers.mono h hle

theorem DefinitionScope.length_strip_le (s : List Char) : (strip s).2.length ≤ s.length := by
  unfold strip
  split
  next rest _ hstrip =>
    rw [eq_append_of_strip? hstrip, List.length_append]
    exact Nat.le_add_left _ _
  next hstrip =>
    rw [eq_append_of_strip? hstrip, List.length_append]
    exact Nat.le_add_left _ _
  next => exact Nat.le_refl _

theorem Path.tapers_parseChars {input : List Char} {path : Path}
    (h : Path.parseChars input = .ok path) : path.Tapers input.length := by
  have hbody := Nat.le_trans (DefinitionScope.length_strip_le (trim input)) (trim_length_le input)
  unfold Path.parseChars at h
  dsimp only at h
  split at h
  · cases h
  · split at h
    next alternates halternates =>
      cases h
      unfold Path.Tapers
      rw [map_eq_of_mapM_ok (fun _ _ => Segment.widths_ofRaws) halternates]
      exact (Segment.tapers_splitAll _).mono hbody
    next => cases h

/-! ## Expressions -/

/-- The paths of the stretch have operations as `Path.Tapers` says. -/
def StringPart.Tapers (bound : Nat) : StringPart → Prop
  | .literal _ => True
  | .substitution path => path.Tapers bound

/-- The paths of the expression have operations as `Path.Tapers` says. -/
def Expression.Tapers (bound : Nat) : Expression → Prop
  | .path p => p.Tapers bound
  | .string parts => ∀ part ∈ parts, part.Tapers bound
  | .negation inner => inner.Tapers bound
  | .existence p => p.Tapers bound

namespace StringPart

theorem mem_of_mem_addChar {c : Char} {path : List Char} {parts : List Raw}
    (h : .substitution path ∈ addChar c parts) : .substitution path ∈ parts := by
  unfold addChar at h
  split at h
  · simpa using h
  · simpa using h

/-- The paths of a string expression are shorter than its text. -/
theorem length_of_mem_splitAll {s : List Char} {parts : List Raw} (hparts : splitAll s = some parts)
    {path : List Char} (hpath : .substitution path ∈ parts) : path.length < s.length := by
  fun_induction splitAll s generalizing parts with
  | case1 =>
      cases hparts
      cases hpath
  | case2 rest ih =>
      obtain ⟨others, hothers, rfl⟩ := Option.map_eq_some_iff.mp hparts
      have hlt := ih hothers (mem_of_mem_addChar hpath)
      simp only [List.length_cons]
      omega
  | case3 rest braced after hclose ih =>
      have hlength := splitAt?_length hclose
      obtain ⟨others, hothers, rfl⟩ := Option.map_eq_some_iff.mp hparts
      simp only [List.length_cons]
      rcases List.mem_cons.mp hpath with heq | hpath
      · obtain rfl := Raw.substitution.inj heq
        omega
      · have hlt := ih hothers hpath
        omega
  | case4 => cases hparts
  | case5 rest _ _ _ ih =>
      obtain ⟨others, hothers, rfl⟩ := Option.map_eq_some_iff.mp hparts
      have hlt := ih hothers (mem_of_mem_addChar hpath)
      simp only [List.length_cons]
      omega
  | case6 rest _ _ _ ih =>
      have htaken := (List.takeWhile_prefix (l := rest) isShortPathChar).length_le
      have hdropped := (List.dropWhile_suffix (l := rest) isShortPathChar).length_le
      obtain ⟨others, hothers, rfl⟩ := Option.map_eq_some_iff.mp hparts
      simp only [List.length_cons]
      rcases List.mem_cons.mp hpath with heq | hpath
      · obtain rfl := Raw.substitution.inj heq
        omega
      · have hlt := ih hothers hpath
        omega
  | case7 c rest _ _ _ ih =>
      obtain ⟨others, hothers, rfl⟩ := Option.map_eq_some_iff.mp hparts
      have hlt := ih hothers (mem_of_mem_addChar hpath)
      simp only [List.length_cons]
      omega

theorem tapers_parseChars {input : List Char} {parts : List StringPart}
    (h : parseChars input = .ok parts) : ∀ part ∈ parts, part.Tapers input.length := by
  unfold parseChars at h
  split at h
  next raws hraws =>
    have hlength : ∀ path, .substitution path ∈ raws → path.length < input.length :=
      fun _ => length_of_mem_splitAll hraws
    clear hraws
    induction raws generalizing parts with
    | nil =>
        cases h
        simp
    | cons raw raws ih =>
        rw [List.mapM_cons] at h
        obtain ⟨first, hfirst, h⟩ := exists_ok_of_bind h
        obtain ⟨rest, hrest, h⟩ := exists_ok_of_bind h
        cases h
        refine List.forall_mem_cons.mpr ⟨?_, ih hrest fun path hpath =>
          hlength path (List.mem_cons_of_mem _ hpath)⟩
        cases raw with
        | literal text =>
            cases hfirst
            trivial
        | substitution text =>
            obtain ⟨path, hread, rfl⟩ := exists_ok_of_map hfirst
            exact (Path.tapers_parseChars hread).mono
              (Nat.le_of_lt (hlength text List.mem_cons_self))
  next => cases h

end StringPart

theorem Expression.Tapers.mono {expression : Expression} {bound bound' : Nat}
    (h : expression.Tapers bound) (hle : bound ≤ bound') : expression.Tapers bound' := by
  induction expression with
  | path p => exact Path.Tapers.mono h hle
  | string parts =>
      intro part hpart
      have hpart' := h part hpart
      cases part with
      | literal text => trivial
      | substitution p => exact Path.Tapers.mono hpart' hle
  | negation inner ih => exact ih h
  | existence p => exact Path.Tapers.mono h hle

theorem Expression.tapers_parseChars {input : List Char} {expression : Expression}
    (h : Expression.parseChars input = .ok expression) : expression.Tapers input.length := by
  have hrest : ∀ {input rest : List Char} {operator : Operator},
      Operator.strip? (trimStart input) = some (operator, rest) → rest.length ≤ input.length :=
    fun hoperator => Nat.le_trans (Nat.le_of_lt (Operator.length_of_strip? hoperator))
      (trimStart_length_le _)
  fun_induction Expression.parseChars input generalizing expression with
  | case1 input rest hoperator =>
      obtain ⟨parts, hparts, rfl⟩ := exists_ok_of_map h
      have htapers : Tapers rest.length (.string parts) := StringPart.tapers_parseChars hparts
      exact htapers.mono (hrest hoperator)
  | case2 input rest hoperator ih =>
      obtain ⟨inner, hinner, rfl⟩ := exists_ok_of_map h
      have htapers := (ih hinner).mono (hrest hoperator)
      exact htapers
  | case3 input rest hoperator =>
      obtain ⟨path, hpath, rfl⟩ := exists_ok_of_map h
      exact (Path.tapers_parseChars hpath).mono (hrest hoperator)
  | case4 input rest hoperator =>
      obtain ⟨path, hpath, rfl⟩ := exists_ok_of_map h
      exact (Path.tapers_parseChars hpath).mono (hrest hoperator)
  | case5 input _ =>
      obtain ⟨path, hpath, rfl⟩ := exists_ok_of_map h
      exact (Path.tapers_parseChars hpath).mono (trimStart_length_le input)

/-! ## Carrying operations out -/

namespace Environment

variable {env : Environment}

theorem length_of_pipeHalves {argument source callable : String}
    (h : pipeHalves argument = some (source, callable)) :
    source.length ≤ argument.length ∧ callable.length ≤ argument.length := by
  unfold pipeHalves at h
  split at h
  next before after hsplit =>
    dsimp only at h
    split at h
    · cases h
    · cases h
      have hlength := splitAt?_length hsplit
      have htrim := trim_length_le argument.toList
      have hafter := trim_length_le after
      simp only [String.length_ofList, String.length_toList] at *
      omega
  next => cases h

section

variable {operate operate' : Operate} {bound : Nat}
  (hsame : ∀ name argument current, argument.length < bound →
    operate name argument current = operate' name argument current)

include hsame

theorem walk_congr {segments : List Segment}
    (hbelow : ∀ width, some width ∈ segments.map Segment.width? → width < bound)
    (current : Option Value) :
    env.walk operate current segments = env.walk operate' current segments := by
  induction segments generalizing current with
  | nil => rfl
  | cons segment segments ih =>
      have hrest := ih fun width hwidth => hbelow width (List.mem_cons_of_mem _ hwidth)
      have hstep : env.step operate current segment = env.step operate' current segment := by
        cases segment with
        | name text => rfl
        | dynamic text => rfl
        | operation name argument =>
            exact hsame name argument current (hbelow _ List.mem_cons_self)
      unfold walk
      rw [hstep, funext fun value => hrest (some value)]

theorem pathWith_congr {path : Path} (h : path.Tapers bound) (start : Option Value) :
    env.pathWith operate start path = env.pathWith operate' start path := by
  have htry : ∀ alternates : List (List Segment),
      (∀ alternate ∈ alternates.map (·.map Segment.width?), ∀ width, some width ∈ alternate →
        width < bound) →
      env.tryAlternates operate start alternates = env.tryAlternates operate' start alternates := by
    intro alternates hbelow
    induction alternates with
    | nil => rfl
    | cons alternate alternates ih =>
        obtain ⟨hfirst, hrest⟩ := List.forall_mem_cons.mp hbelow
        unfold tryAlternates
        rw [walk_congr hsame hfirst, ih hrest]
  unfold pathWith
  rw [htry path.alternates h.below]

theorem stringWith_congr {parts : List StringPart} (h : ∀ part ∈ parts, part.Tapers bound) :
    env.stringWith operate parts = env.stringWith operate' parts := by
  induction parts with
  | nil => rfl
  | cons part parts ih =>
      obtain ⟨hfirst, hrest⟩ := List.forall_mem_cons.mp h
      cases part with
      | literal text => rw [stringWith, stringWith, ih hrest]
      | substitution path =>
          rw [stringWith, stringWith, ih hrest, pathWith_congr hsame hfirst]

theorem evaluateWith_congr {expression : Expression} (h : expression.Tapers bound) :
    env.evaluateWith operate expression = env.evaluateWith operate' expression := by
  induction expression with
  | path p => exact pathWith_congr hsame h none
  | string parts => rw [evaluateWith, evaluateWith, stringWith_congr hsame h]
  | negation inner ih => rw [evaluateWith, evaluateWith, ih h]
  | existence p => rw [evaluateWith, evaluateWith, pathWith_congr hsame h]

end

/-- What a module does depends only on operations with shorter arguments. -/
theorem runModule_congr {operate operate' : Operate} {argument : String}
    (hsame : ∀ name argument' current, argument'.length < argument.length →
      operate name argument' current = operate' name argument' current)
    (module : Module) (current : Option Value) :
    env.runModule operate module argument current =
      env.runModule operate' module argument current := by
  have hexpression : ∀ {text : String} {expression : Expression},
      text.length ≤ argument.length → Expression.parse text = .ok expression →
        env.evaluateWith operate expression = env.evaluateWith operate' expression :=
    fun hle hread => evaluateWith_congr hsame ((Expression.tapers_parseChars hread).mono
      (by rwa [String.length_toList]))
  have hpath : ∀ {text : String} {path : Path},
      text.length ≤ argument.length → Path.parse text = .ok path →
        env.pathWith operate current path = env.pathWith operate' current path :=
    fun hle hread => pathWith_congr hsame ((Path.tapers_parseChars hread).mono
      (by rwa [String.length_toList])) current
  have hself := Nat.le_refl argument.length
  cases module with
  | string =>
      refine bind_congr_ok fun parts hparts => ?_
      have htapers := StringPart.tapers_parseChars hparts
      rw [String.length_toList] at htapers
      rw [stringWith_congr hsame htapers]
  | negation =>
      unfold runModule
      dsimp only
      split
      · rfl
      · exact bind_congr_ok fun inner hinner => by rw [hexpression hself hinner]
  | path => exact bind_congr_ok fun path hread => hpath hself hread
  | existence => exact bind_congr_ok fun path hread => by rw [hpath hself hread]
  | pipe =>
      unfold runModule pipeWith
      dsimp only
      split
      next => rfl
      next source callable hhalves =>
        obtain ⟨hsource, hcallable⟩ := length_of_pipeHalves hhalves
        rw [bind_congr_ok fun path hread => hpath hsource hread,
          bind_congr_ok fun inner hinner => hexpression hcallable hinner]
  | host run => rfl

/-- An operation is what its module does, the operations inside the argument carried out like any
others. -/
theorem operation_eq (name argument : String) (current : Option Value) :
    env.operation name argument current =
      match env.modules.lookup name with
      | none => .error (.unknownModule name)
      | some module => env.runModule env.operation module argument current := by
  rw [operation]
  cases env.modules.lookup name with
  | none => rfl
  | some module =>
      refine runModule_congr (fun name' argument' current' hlt => ?_) module current
      rw [if_pos hlt]

end Environment

end PageTemplate
