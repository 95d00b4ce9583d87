import PageTemplate.Proofs.Render.MacroTops

/-! # Chains of macros that extend one another

The macro that is used may extend another one, and so on. Which macros these are is settled before
the expansion begins: what a macro extends is said by the top of its copy, which filling slots does
not change, and expressions are evaluated where the macro is used. The expansion goes along the
chain up to the first macro that extends none, unless it comes before that to a name it has met or
to the greatest depth.
-/

namespace PageTemplate.Expansion

open Markup Document

variable (settings : Settings) (ctx : Context) (s : RenderState)

/-! ## The chain -/

/-- The macro that an expression names, or none when the expression cancels. Nothing when the
expression is in error. -/
def named? (expression : String) : Option (Option MacroRef) :=
  match Expression.parse expression >>= (ctx.environment settings s.globals).evaluate with
  | .ok value => if value.cancels then some none else value.asMacro?.map some
  | .error _ => none

/-- The expression that says at the top of a macro's copy what the macro extends. -/
def extension? (used : MacroRef) : Option String :=
  let made := MacroTable.copyElement settings.vocabularies s.document used.element
  (made.1.findAttribute? made.2 settings.vocabularies.extendMacro).map (·.value)

/-- The macro that a macro extends, or none. Nothing when its expression is in error. -/
def parent? (used : MacroRef) : Option (Option MacroRef) :=
  match extension? settings s used with
  | some expression => named? settings ctx s expression
  | none => some none

/-- The macros of a chain: the one that is used, the one that it extends, and so on. -/
def link (used : MacroRef) : Nat → Option MacroRef
  | 0 => some used
  | k + 1 => (link used k).bind fun found => (parent? settings ctx s found).join

/-- The names of the macros of a chain up to the `k`-th one. -/
def names (used : MacroRef) (k : Nat) : List String :=
  (List.range (k + 1)).filterMap fun i => (link settings ctx s used i).map (·.name)

/-- The macro that the `k`-th one extends has a name that the chain has met already, or is one more
than the greatest depth allows. -/
def Offends (used : MacroRef) (k : Nat) : Prop :=
  ∃ found, link settings ctx s used (k + 1) = some found ∧
    (found.name ∈ names settings ctx s used k ∨ settings.maxMacroDepth < k + 2)

/-- What is said of a chain that must not go on. -/
def reason (chain : List String) (name : String) : String :=
  if chain.contains name then "extends itself"
  else s!"is deeper than the limit of {settings.maxMacroDepth}"

/-- A macro's copy with its slots filled, and the elements that are left to fill slots with. -/
structure Filled where
  document : Document
  copy : NodeId
  fillers : Slots.Fillers

/-- Copies a macro into a document and fills its slots. -/
def fillCopy (v : Vocabularies) (d : Document) (fillers : Slots.Fillers) (found : MacroRef) :
    Filled :=
  let made := MacroTable.copyElement v d found.element
  let filling := Slots.fill v made.1 made.2 fillers
  { document := filling.document, copy := made.2, fillers := filling.fillers }

/-- The filled copy of the `k`-th macro of a chain. The slots of the first one are filled from the
place of use; the others take what is left, and before that what the copy before them holds. -/
def filled? (used : MacroRef) : Nat → Option Filled
  | 0 => some (fillCopy settings.vocabularies s.document
      (Slots.collect settings.vocabularies s.document ctx.node) used)
  | k + 1 => do
    let before ← filled? used k
    let found ← link settings ctx s used (k + 1)
    let brought := Slots.collect settings.vocabularies before.document before.copy
    return fillCopy settings.vocabularies before.document (Keyed.merge before.fillers brought) found

variable {settings ctx s} {used found next : MacroRef} {k : Nat} {t u : RenderState} {state : State}

theorem link_succ (hk : link settings ctx s used k = some found) :
    link settings ctx s used (k + 1) = (parent? settings ctx s found).join := by
  rw [link, hk, Option.bind_some]

/-- The cache has no say in a chain. -/
theorem link_cached (cache : ExpressionCache) (k : Nat) :
    link settings ctx { s with cache } used k = link settings ctx s used k := by
  induction k with
  | zero => rfl
  | succ k ih =>
      rw [link, link, ih]
      rfl

/-- A chain has no gaps. -/
theorem exists_link_of_le {j : Nat} (hk : link settings ctx s used k = some found) (hj : j ≤ k) :
    ∃ found, link settings ctx s used j = some found := by
  induction k generalizing found with
  | zero => exact ⟨found, Nat.le_zero.mp hj ▸ hk⟩
  | succ k ih =>
      rcases Nat.lt_or_eq_of_le hj with hlt | rfl
      · obtain ⟨before, hbefore, -⟩ := Option.bind_eq_some_iff.mp hk
        exact ih hbefore (Nat.le_of_lt_succ hlt)
      · exact ⟨found, hk⟩

theorem names_succ (hk : link settings ctx s used (k + 1) = some found) :
    names settings ctx s used (k + 1) = names settings ctx s used k ++ [found.name] := by
  unfold names
  rw [List.range_succ, List.filterMap_append]
  simp [hk]

theorem length_names (hk : link settings ctx s used k = some found) :
    (names settings ctx s used k).length = k + 1 := by
  induction k generalizing found with
  | zero => simp [names, link]
  | succ k ih =>
      obtain ⟨before, hbefore⟩ := exists_link_of_le hk (Nat.le_succ k)
      rw [names_succ hk, List.length_append, ih hbefore, List.length_singleton]

/-! ## Steps along the chain -/

/-- An expression that is not in error is resolved to what it names. -/
theorem outcome_resolve_of_named? {found : Option MacroRef} (hcache : t.cache.IsFaithful)
    (hglobals : t.globals = s.globals) {expression : String}
    (hnamed : named? settings ctx s expression = some found) (element : NodeId)
    (spec : AttributeSpec) :
    outcome (resolve settings ctx element spec expression) t =
      (.ok found, { t with cache := (t.cache.get expression).2 }) := by
  unfold named? at hnamed
  unfold resolve
  rw [outcome_bind_ok (ctx.outcome_evaluate settings hcache expression), hglobals]
  cases hvalue : Expression.parse expression >>= (ctx.environment settings s.globals).evaluate with
  | error source =>
      rw [hvalue] at hnamed
      cases hnamed
  | ok value =>
      rw [hvalue] at hnamed
      rw [outcome_bind_ok (Rendering.outcome_document _)]
      dsimp only at hnamed ⊢
      split at hnamed
      next hcancels =>
        rw [if_pos hcancels]
        cases hnamed
        rfl
      next hcancels =>
        rw [if_neg hcancels]
        obtain ⟨reference, hreference, rfl⟩ := Option.map_eq_some_iff.mp hnamed
        rw [hreference]
        rfl

/-- What an expression is resolved to is what it names. -/
theorem ensures_resolve_named? (hcache : t.cache.IsFaithful) (hglobals : t.globals = s.globals)
    (element : NodeId) (spec : AttributeSpec) (expression : String) :
    Ensures (resolve settings ctx element spec expression) t
      (fun found _ => named? settings ctx s expression = some found) fun _ _ => True := by
  have hevaluate := ctx.outcome_evaluate settings hcache expression
  rw [hglobals] at hevaluate
  unfold resolve named?
  refine Ensures.bind (.of_eq _ hevaluate (Ensures.bind (Rendering.ensures_document ?_)))
  cases Expression.parse expression >>= (ctx.environment settings s.globals).evaluate with
  | error source =>
      dsimp only
      split
      · exact Rendering.ensures_fail trivial
      · exact Rendering.ensures_fail trivial
  | ok value =>
      dsimp only
      split
      · exact Ensures.pure rfl
      · cases value.asMacro? with
        | none => exact Rendering.ensures_fail trivial
        | some reference => exact Ensures.pure rfl

/-- The filled copy of a macro of the document is an addition, and says as every copy does what the
macro extends. -/
theorem fillCopy_spec (settings : Settings) {d : Document} (hlinked : s.document.WellLinked)
    (hground : s.document.Grounded found.element) (h : Extends s.document d)
    (fillers : Slots.Fillers) :
    let filled := fillCopy settings.vocabularies d fillers found
    Extends s.document filled.document ∧ s.document.size ≤ filled.copy ∧
      (filled.document.findAttribute? filled.copy settings.vocabularies.extendMacro).map (·.value) =
        extension? settings s found := by
  have hroot : root < s.document.size := Nat.lt_of_le_of_lt (Nat.zero_le _) hground.lt
  have hcopy := MacroTable.copied_copyElement_any settings.vocabularies h.linked found.element
  have hextends := Extends.trans h hcopy.grown
  have hnew := Nat.le_trans h.size_le hcopy.new
  have hfilled := Slots.extends_fillTo (v := settings.vocabularies) hlinked hroot
    (MacroTable.copyElement settings.vocabularies d found.element).1.size
    { document := (MacroTable.copyElement settings.vocabularies d found.element).1, fillers }
    hnew hextends
  have hkept := Slots.kept_fillTo (v := settings.vocabularies) hlinked hroot
    (MacroTable.copyElement settings.vocabularies d found.element).1.size
    { document := (MacroTable.copyElement settings.vocabularies d found.element).1, fillers }
    hnew hextends
  refine ⟨hfilled, hnew, ?_⟩
  unfold extension?
  dsimp only
  rw [← MacroTable.findAttribute?_copyElement_old h hground]
  apply congrArg (Option.map _)
  exact hcopy.grown.linked.findAttribute?_top hcopy.parent_eq hcopy.lt hfilled.linked
    (hkept.top _ hcopy.lt hcopy.parent_eq) (Nat.lt_of_lt_of_le hcopy.lt hkept.size_le)
    (congrArg NodeKind.element? (hkept.kind_eq _ hcopy.lt)) _

/-- Filling the slots of a copy leaves its top what it is. -/
theorem kind_fillCopy (v : Vocabularies) {d : Document} (hground : d.Grounded found.element)
    (fillers : Slots.Fillers) :
    let made := MacroTable.copyElement v d found.element
    let filled := fillCopy v d fillers found
    filled.document.kind filled.copy = made.1.kind made.2 := by
  have hroot : root < d.size := Nat.lt_of_le_of_lt (Nat.zero_le _) hground.lt
  have hcopy := MacroTable.copied_copyElement_any v hground.linked found.element
  have hkept := Slots.kept_fillTo (v := v) hground.linked hroot
    (MacroTable.copyElement v d found.element).1.size
    { document := (MacroTable.copyElement v d found.element).1, fillers } hcopy.new hcopy.grown
  exact hkept.kind_eq _ hcopy.lt

/-- An expansion has come to the `k`-th macro of its chain. -/
structure At (settings : Settings) (ctx : Context) (s : RenderState) (used : MacroRef) (k : Nat)
    (state : State) (t : RenderState) : Prop where
  filled : filled? settings ctx s used k =
    some { document := t.document, copy := state.current, fillers := state.fillers }
  chain : state.chain = names settings ctx s used k
  extension : ∃ found, link settings ctx s used k = some found ∧
    (t.document.findAttribute? state.current settings.vocabularies.extendMacro).map (·.value) =
      extension? settings s found
  aside : Aside s.document state t
  globals : t.globals = s.globals
  cache : t.cache.IsFaithful

/-- The next macro is copied before its name is looked at. -/
theorem outcome_advance (state : State) (next : MacroRef) (t : RenderState) :
    outcome (advance settings state next) t =
      let v := settings.vocabularies
      let made := MacroTable.copyElement v t.document next.element
      let chain := state.chain ++ [next.name]
      (if next.name ∈ state.chain ∨ settings.maxMacroDepth < chain.length then
        .error (.failed (.macroChain chain (reason settings state.chain next.name)))
      else .ok {
        current := made.2
        fillers := Keyed.merge state.fillers (Slots.collect v t.document state.current)
        chain }, { t with document := made.1 }) := by
  unfold advance
  rw [outcome_bind_ok (Rendering.outcome_document t),
    outcome_bind_ok (Rendering.outcome_createIn _ t)]
  unfold reason
  dsimp only
  by_cases hmember : next.name ∈ state.chain
  · rw [if_pos (List.contains_iff_mem.mpr hmember), if_pos (.inl hmember),
      if_pos (List.contains_iff_mem.mpr hmember)]
    rfl
  · have hcontains : ¬ state.chain.contains next.name = true :=
      fun h => hmember (List.contains_iff_mem.mp h)
    rw [if_neg hcontains, if_neg hcontains]
    by_cases hdepth : settings.maxMacroDepth < (state.chain ++ [next.name]).length
    · rw [if_pos hdepth, if_pos (.inr hdepth)]
      rfl
    · rw [if_neg hdepth, if_neg (not_or.mpr ⟨hmember, hdepth⟩)]
      rfl

/-- A step evaluates the expression that the copy has, and goes on when it names a macro. -/
theorem outcome_extendTo_succ {found : Option MacroRef} {expression : String}
    (hcache : t.cache.IsFaithful) (hglobals : t.globals = s.globals)
    (hexpression : (t.document.findAttribute? state.current
      settings.vocabularies.extendMacro).map (·.value) = some expression)
    (hnamed : named? settings ctx s expression = some found) (fuel : Nat) :
    outcome (extendTo settings ctx (fuel + 1) state) t =
      outcome (match found with
        | none => pure state
        | some parent => do
          extendTo settings ctx fuel (← fillCurrent settings (← advance settings state parent)))
        { t with cache := (t.cache.get expression).2 } := by
  obtain ⟨attr, hattr, rfl⟩ := Option.map_eq_some_iff.mp hexpression
  conv_lhs => unfold extendTo
  rw [outcome_bind_ok (Rendering.outcome_document t), hattr]
  dsimp only
  refine (outcome_bind_ok (outcome_resolve_of_named? hcache hglobals hnamed _ _)).trans ?_
  cases found <;> rfl

section

variable (hlinked : s.document.WellLinked)
  (hground : ∀ k found, link settings ctx s used k = some found →
    s.document.Grounded found.element)

include hlinked hground

/-- The first macro is copied and filled. -/
theorem outcome_begin (hcache : s.cache.IsFaithful) :
    ∃ state t, outcome (begin settings ctx used) s = (.ok state, t) ∧
      At settings ctx s used 0 state t := by
  obtain ⟨hgrown, hnew, hextension⟩ := fillCopy_spec settings hlinked
    (hground 0 used rfl) (.refl hlinked)
    (Slots.collect settings.vocabularies s.document ctx.node)
  refine ⟨_, _, rfl, rfl, ?_, ⟨used, rfl, hextension⟩, ⟨hgrown, hnew⟩, rfl, hcache⟩
  simp [names, link]

/-- One step along a chain that does not end yet: the guard stops it, or the next macro is copied
and filled. -/
theorem At.step (h : At settings ctx s used k state t)
    (hnext : link settings ctx s used (k + 1) = some next) (fuel : Nat) :
    (Offends settings ctx s used k ∧ ∃ u, outcome (extendTo settings ctx (fuel + 1) state) t =
      (.error (.failed (.macroChain (names settings ctx s used (k + 1))
        (reason settings (names settings ctx s used k) next.name))), u)) ∨
    (¬ Offends settings ctx s used k ∧ ∃ state' u,
      outcome (extendTo settings ctx (fuel + 1) state) t =
        outcome (extendTo settings ctx fuel state') u ∧
      At settings ctx s used (k + 1) state' u) := by
  obtain ⟨found, hfound, hextension⟩ := h.extension
  have hparent : parent? settings ctx s found = some (some next) := by
    rw [link_succ hfound] at hnext
    exact Option.join_eq_some_iff.mp hnext
  unfold parent? at hparent
  rw [← hextension] at hparent
  split at hparent
  case h_2 => cases hparent
  case h_1 expression hexpression =>
    rw [outcome_extendTo_succ h.cache h.globals hexpression hparent]
    dsimp only
    rw [outcome_bind, outcome_advance, h.chain]
    have hchain := names_succ hnext
    have hguard : (next.name ∈ names settings ctx s used k ∨ settings.maxMacroDepth <
        (names settings ctx s used k ++ [next.name]).length) ↔ Offends settings ctx s used k := by
      rw [← hchain, length_names hnext]
      constructor
      · exact fun h => ⟨next, hnext, h⟩
      · rintro ⟨found', hfound', h⟩
        rwa [Option.some.inj (hnext.symm.trans hfound')]
    by_cases hoffends : Offends settings ctx s used k
    · refine .inl ⟨hoffends, ?_⟩
      dsimp only
      rw [if_pos (hguard.mpr hoffends), hchain]
      exact ⟨_, rfl⟩
    · refine .inr ⟨hoffends, ?_⟩
      dsimp only
      rw [if_neg (mt hguard.mp hoffends)]
      obtain ⟨hgrown, hnew, hextension'⟩ := fillCopy_spec settings hlinked
        (hground (k + 1) next hnext) h.aside.grown
        (Keyed.merge state.fillers (Slots.collect settings.vocabularies t.document state.current))
      refine ⟨_, _, rfl, ?_, hchain.symm, ⟨next, hnext, hextension'⟩, ⟨hgrown, hnew⟩, h.globals,
        (h.cache.get expression).2⟩
      rw [filled?, h.filled, hnext]
      rfl

omit hlinked hground in
/-- The chain ends at a macro that extends none. -/
theorem At.stop (h : At settings ctx s used k state t)
    (hresolves : ∀ found, link settings ctx s used k = some found →
      (parent? settings ctx s found).isSome)
    (hnone : link settings ctx s used (k + 1) = none) (fuel : Nat) :
    ∃ u, outcome (extendTo settings ctx (fuel + 1) state) t = (.ok state, u) ∧
      u.document = t.document := by
  obtain ⟨found, hfound, hextension⟩ := h.extension
  have hparent : parent? settings ctx s found = some none := by
    obtain ⟨parent, hparent⟩ := Option.isSome_iff_exists.mp (hresolves found hfound)
    rw [link_succ hfound, hparent] at hnone
    exact hparent.trans (congrArg some hnone)
  unfold parent? at hparent
  rw [← hextension] at hparent
  split at hparent
  case h_1 expression hexpression =>
    exact ⟨_, outcome_extendTo_succ h.cache h.globals hexpression hparent fuel, rfl⟩
  case h_2 hexpression =>
    have hattr := Option.map_eq_none_iff.mp hexpression
    refine ⟨t, ?_, rfl⟩
    unfold extendTo
    rw [outcome_bind_ok (Rendering.outcome_document t), hattr]
    rfl

/-- A run along the chain ends at the first link at which the guard stops it, or at the last link of
the chain. The steps suffice when they lead beyond the greatest depth. -/
theorem At.run (hresolves : ∀ k found, link settings ctx s used k = some found →
      (parent? settings ctx s found).isSome)
    (hbefore : ∀ j < k, ¬ Offends settings ctx s used j) (h : At settings ctx s used k state t)
    {fuel : Nat} (hfuel : settings.maxMacroDepth ≤ k + fuel) (hk : k < settings.maxMacroDepth) :
    (∃ j next u, Offends settings ctx s used j ∧ (∀ i < j, ¬ Offends settings ctx s used i) ∧
      link settings ctx s used (j + 1) = some next ∧
      outcome (extendTo settings ctx fuel state) t =
        (.error (.failed (.macroChain (names settings ctx s used (j + 1))
          (reason settings (names settings ctx s used j) next.name))), u)) ∨
    (∃ j last state' u, (∀ i, ¬ Offends settings ctx s used i) ∧
      link settings ctx s used j = some last ∧ link settings ctx s used (j + 1) = none ∧
      outcome (extendTo settings ctx fuel state) t = (.ok state', u) ∧
      filled? settings ctx s used j =
        some { document := u.document, copy := state'.current, fillers := state'.fillers }) := by
  induction fuel generalizing k state t with
  | zero => omega
  | succ fuel ih =>
      cases hnext : link settings ctx s used (k + 1) with
      | none =>
          obtain ⟨found, hfound, -⟩ := h.extension
          obtain ⟨u, houtcome, hdocument⟩ := h.stop (hresolves k) hnext fuel
          refine .inr ⟨k, found, state, u, fun i hi => ?_, hfound, hnext, houtcome, ?_⟩
          · by_cases hik : i < k
            · exact hbefore i hik hi
            · obtain ⟨next, hlink, -⟩ := hi
              obtain ⟨_, hsome⟩ := exists_link_of_le hlink (Nat.succ_le_succ (Nat.le_of_not_lt hik))
              rw [hnext] at hsome
              cases hsome
          · rw [hdocument]
            exact h.filled
      | some next =>
          rcases h.step hlinked hground hnext fuel with
            ⟨hoffends, u, hu⟩ | ⟨hgoes, state', u, hu, hat⟩
          · exact .inl ⟨k, next, u, hoffends, hbefore, hnext, hu⟩
          · rw [hu]
            have hdepth : k + 1 < settings.maxMacroDepth := by
              by_contra hdeep
              exact hgoes ⟨next, hnext, .inr (by omega)⟩
            refine ih (fun j hj => ?_) hat (by omega) hdepth
            rcases Nat.lt_or_eq_of_le (Nat.le_of_lt_succ hj) with hlt | rfl
            · exact hbefore j hlt
            · exact hgoes

/-- The filled copy of a link is made in the document with some additions. -/
theorem exists_fillCopy_of_filled? {filled : Filled}
    (hfilled : filled? settings ctx s used k = some filled)
    (hlink : link settings ctx s used k = some found) :
    ∃ d fillers, Extends s.document d ∧
      filled = fillCopy settings.vocabularies d fillers found := by
  induction k generalizing found filled with
  | zero =>
      cases hlink
      exact ⟨s.document, _, .refl hlinked, (Option.some.inj hfilled).symm⟩
  | succ k ih =>
      obtain ⟨before, hbefore⟩ := exists_link_of_le hlink (Nat.le_succ k)
      simp only [filled?, Option.bind_eq_bind, Option.bind_eq_some_iff, Option.pure_def, hlink,
        Option.some.injEq, exists_eq_left'] at hfilled
      obtain ⟨_, hmade, rfl⟩ := hfilled
      obtain ⟨d, fillers, hextends, rfl⟩ := ih hmade hbefore
      have hgrown := (fillCopy_spec settings hlinked (hground k before hbefore) hextends fillers).1
      exact ⟨_, _, hgrown, rfl⟩

end

/-! ## As many steps as macros may extend one another -/

/-- What comes after a step matters where the step gives a result. -/
theorem outcome_bind_congr_of_ne {α β : Type} {m : Rendering α} {f g : α → Rendering β}
    {stop : Stop} (hends : (outcome (m >>= f) t).1 ≠ .error stop)
    (hsame : ∀ a u, outcome m t = (.ok a, u) → (outcome (f a) u).1 ≠ .error stop →
      outcome (g a) u = outcome (f a) u) : outcome (m >>= g) t = outcome (m >>= f) t := by
  rcases hm : outcome m t with ⟨fault | a, u⟩
  · simp only [outcome_bind, hm]
  · rw [outcome_bind_ok hm] at hends ⊢
    rw [outcome_bind_ok hm, hsame a u hm hends]

/-- Steps beyond those that suffice change nothing. -/
theorem outcome_extendTo_of_le {fuel more : Nat} (hle : fuel ≤ more)
    (hends : (outcome (extendTo settings ctx fuel state) t).1 ≠ .error .exhausted) :
    outcome (extendTo settings ctx more state) t =
      outcome (extendTo settings ctx fuel state) t := by
  induction fuel generalizing more state t with
  | zero => exact absurd rfl hends
  | succ fuel ih =>
      obtain ⟨more, rfl⟩ : ∃ m, more = m + 1 := ⟨more - 1, by omega⟩
      unfold extendTo at hends ⊢
      rw [outcome_bind_ok (Rendering.outcome_document t)] at hends ⊢
      rw [outcome_bind_ok (Rendering.outcome_document t)]
      split
      · rfl
      next attr hattr =>
        rw [hattr] at hends
        apply outcome_bind_congr_of_ne hends
        intro found u _ hends
        cases found with
        | none => rfl
        | some parent =>
            apply outcome_bind_congr_of_ne hends
            intro next w _ hends
            apply outcome_bind_congr_of_ne hends
            exact fun filled w' _ hends => ih (Nat.le_of_succ_le_succ hle) hends

/-- An expansion that follows at most `steps` macros that are extended. -/
def expandWithin (settings : Settings) (ctx : Context) (steps : Nat) (used : MacroRef) :
    Rendering NodeId := do
  let state ← begin settings ctx used
  return (← extendTo settings ctx steps state).current

/-- Expansion follows the chain and the guard is exact. As many macros as the greatest depth are
enough to follow. When the guard stops the chain, it does so at the first name that is met again or
that is one too many, and the error lists the names up to that one. Otherwise the chain ends, and
the result is the copy of its last macro, with its slots filled. -/
theorem expand_along_chain (hlinked : s.document.WellLinked) (hcache : s.cache.IsFaithful)
    (hdepth : 1 ≤ settings.maxMacroDepth)
    (hchain : ∀ k found, link settings ctx s used k = some found →
      s.document.Grounded found.element ∧ (parent? settings ctx s found).isSome) :
    (∀ steps, settings.maxMacroDepth ≤ steps →
      outcome (expandWithin settings ctx steps used) s = outcome (expand settings ctx used) s) ∧
    ((∃ chain message t, outcome (expand settings ctx used) s =
      (.error (.failed (.macroChain chain message)), t)) ↔ ∃ k, Offends settings ctx s used k) ∧
    (∀ k, Offends settings ctx s used k → (∀ j < k, ¬ Offends settings ctx s used j) →
      ∃ next t, link settings ctx s used (k + 1) = some next ∧
        outcome (expand settings ctx used) s =
          (.error (.failed (.macroChain (names settings ctx s used (k + 1))
            (reason settings (names settings ctx s used k) next.name))), t)) ∧
    ((∀ k, ¬ Offends settings ctx s used k) → ∃ k last d fillers t,
      link settings ctx s used k = some last ∧ link settings ctx s used (k + 1) = none ∧
        Extends s.document d ∧
        let filled := fillCopy settings.vocabularies d fillers last
        filled? settings ctx s used k = some filled ∧
          outcome (expand settings ctx used) s = (.ok filled.copy, t) ∧
          t.document = filled.document) := by
  have hground : ∀ k found, link settings ctx s used k = some found →
      s.document.Grounded found.element := fun k found h => (hchain k found h).1
  obtain ⟨state, t, hbegin, hat⟩ := outcome_begin hlinked hground hcache
  have hrun := hat.run hlinked hground (fun k found h => (hchain k found h).2)
    (fun j hj => absurd hj (Nat.not_lt_zero j)) (Nat.le_add_left _ _) hdepth
  have hends : (outcome (extendTo settings ctx settings.maxMacroDepth state) t).1 ≠
      .error .exhausted := by
    rcases hrun with ⟨j, next, u, -, -, -, hu⟩ | ⟨j, last, state', u, -, -, -, hu, -⟩
    · rw [hu]
      simp
    · rw [hu]
      simp
  have hwithin : ∀ steps, settings.maxMacroDepth ≤ steps →
      outcome (expandWithin settings ctx steps used) s =
        outcome (do return (← extendTo settings ctx settings.maxMacroDepth state).current) t := by
    intro steps hsteps
    unfold expandWithin
    rw [outcome_bind_ok hbegin, outcome_bind, outcome_extendTo_of_le hsteps hends, ← outcome_bind]
  have hexpand : outcome (expand settings ctx used) s =
      outcome (do return (← extendTo settings ctx settings.maxMacroDepth state).current) t := by
    rw [expand_eq]
    exact hwithin _ (Nat.le_succ _)
  refine ⟨fun steps hsteps => (hwithin steps hsteps).trans hexpand.symm, ?_⟩
  rcases hrun with ⟨j, next, u, hoffends, hfirst, hlink, hu⟩ |
    ⟨j, last, state', u, hnone, hlast, hend, hu, hfilled⟩
  · have hresult : outcome (expand settings ctx used) s = (.error (.failed (.macroChain
        (names settings ctx s used (j + 1))
          (reason settings (names settings ctx s used j) next.name))), u) := by
      rw [hexpand, outcome_bind, hu]
    refine ⟨⟨fun _ => ⟨j, hoffends⟩, fun _ => ⟨_, _, _, hresult⟩⟩, fun k hk hbefore => ?_,
      fun hnone => absurd hoffends (hnone j)⟩
    obtain rfl : k = j := by
      by_contra hne
      rcases Nat.lt_or_gt_of_ne hne with hlt | hlt
      · exact hfirst k hlt hk
      · exact hbefore j hlt hoffends
    exact ⟨next, u, hlink, hresult⟩
  · have hresult : outcome (expand settings ctx used) s = (.ok state'.current, u) := by
      rw [hexpand, outcome_bind, hu]
      rfl
    refine ⟨⟨?_, fun ⟨k, hk⟩ => absurd hk (hnone k)⟩, fun k hk _ => absurd hk (hnone k),
      fun _ => ?_⟩
    · rintro ⟨chain, message, w, hfails⟩
      rw [hresult] at hfails
      cases hfails
    · obtain ⟨d, fillers, hextends, heq⟩ :=
        exists_fillCopy_of_filled? hlinked hground hfilled hlast
      refine ⟨j, last, d, fillers, u, hlast, hend, hextends, ?_⟩
      rw [← heq]
      exact ⟨hfilled, hresult, rfl⟩

section Examples

/-- A page whose macros extend one another, and a use of the first one. -/
def extendingPage : Document where
  nodes := #[
    { kind := .root, children := [1] },
    { kind := .element { name := .parse "r" }, parent := some 0, children := [2, 3, 4, 5] },
    { kind := .element {
        name := .parse "a", attributes := [⟨.parse "metal:extend-macro", "options/b"⟩] },
      parent := some 1 },
    { kind := .element {
        name := .parse "b", attributes := [⟨.parse "metal:extend-macro", "options/c"⟩] },
      parent := some 1 },
    { kind := .element { name := .parse "c" }, parent := some 1 },
    { kind := .element {
        name := .parse "p", attributes := [⟨.parse "metal:use-macro", "options/a"⟩] },
      parent := some 1 }]

/-- A chain of three macros is too deep where two are allowed. -/
theorem expand_along_chain_of_three :
    let a : MacroRef := { name := "a", element := 2 }
    let b : MacroRef := { name := "b", element := 3 }
    let c : MacroRef := { name := "c", element := 4 }
    let settings : Settings := {
      options := [("a", .macroRef a), ("b", .macroRef b), ("c", .macroRef c)], maxMacroDepth := 2 }
    let ctx := Context.ofNode extendingPage 5 {}
    let s : RenderState := { document := extendingPage, globals := { root := .null } }
    s.document.WellLinked ∧ s.cache.IsFaithful ∧ 1 ≤ settings.maxMacroDepth ∧
      (∀ k found, link settings ctx s a k = some found →
        s.document.Grounded found.element ∧ (parent? settings ctx s found).isSome) ∧
      Offends settings ctx s a 1 ∧
      ∃ t, outcome (expand settings ctx a) s =
        (.error (.failed (.macroChain ["a", "b", "c"] "is deeper than the limit of 2")), t) := by
  intro a b c settings ctx s
  have hlinked : s.document.WellLinked := by decide +kernel
  have hinner : 1 ∈ s.document.children root := by decide +kernel
  have htop : s.document.Rooted 1 :=
    Rooted.below (.of_parent hlinked.parent_root) (.child .refl hinner)
  have ha : parent? settings ctx s a = some (some b) := by decide +kernel
  have hb : parent? settings ctx s b = some (some c) := by decide +kernel
  have hc : parent? settings ctx s c = some none := by decide +kernel
  have hmember (k : Nat) (found : MacroRef) (hfound : link settings ctx s a k = some found) :
      found = a ∨ found = b ∨ found = c := by
    induction k generalizing found with
    | zero => exact .inl (Option.some.inj hfound).symm
    | succ k ih =>
        obtain ⟨before, hbefore⟩ := exists_link_of_le hfound (Nat.le_succ k)
        rw [link_succ hbefore] at hfound
        rcases ih before hbefore with rfl | rfl | rfl
        · rw [ha] at hfound
          exact .inr (.inl (Option.some.inj hfound).symm)
        · rw [hb] at hfound
          exact .inr (.inr (Option.some.inj hfound).symm)
        · rw [hc] at hfound
          cases hfound
  have hchain (k : Nat) (found : MacroRef) (hfound : link settings ctx s a k = some found) :
      s.document.Grounded found.element ∧ (parent? settings ctx s found).isSome := by
    rcases hmember k found hfound with rfl | rfl | rfl
    · exact ⟨.of_parent hlinked htop (by decide +kernel), by decide +kernel⟩
    · exact ⟨.of_parent hlinked htop (by decide +kernel), by decide +kernel⟩
    · exact ⟨.of_parent hlinked htop (by decide +kernel), by decide +kernel⟩
  have hoffends : Offends settings ctx s a 1 := ⟨c, by decide +kernel, .inr (by decide)⟩
  have hfirst : ∀ j < 1, ¬ Offends settings ctx s a j := by
    intro j hj
    obtain rfl : j = 0 := Nat.lt_one_iff.mp hj
    rintro ⟨found, hfound, hrepeats | hdeep⟩
    · obtain rfl : b = found := Option.some.inj (hfound.symm.trans (by decide +kernel)).symm
      exact absurd hrepeats (by decide +kernel)
    · exact absurd hdeep (by decide)
  have hcache : s.cache.IsFaithful := ExpressionCache.isFaithful_empty
  obtain ⟨-, -, herror, -⟩ := expand_along_chain hlinked hcache (by decide) hchain
  obtain ⟨next, t, hnext, hfails⟩ := herror 1 hoffends hfirst
  obtain rfl : c = next := Option.some.inj (hnext.symm.trans (by decide +kernel)).symm
  have hnames : names settings ctx s a 2 = ["a", "b", "c"] := by decide +kernel
  have hreason : reason settings (names settings ctx s a 1) c.name =
      "is deeper than the limit of 2" := by decide +kernel
  rw [hnames, hreason] at hfails
  exact ⟨hlinked, hcache, by decide, hchain, hoffends, t, hfails⟩

end Examples

end PageTemplate.Expansion
