import PageTemplate.Proofs.Expression.Caching
import PageTemplate.Proofs.Markup.Exchange
import PageTemplate.Proofs.Render.CheckedEdits
import PageTemplate.Proofs.Render.Declaring
import PageTemplate.Proofs.Render.FailedDirective
import PageTemplate.Proofs.Render.SlotPassing

/-! # What a list of attributes makes of an element

The items of a list of attributes are assignments of values to names. What a value is does not
depend on the assignments before it, but an attribute may need a declaration that an earlier one has
brought already. A list is carried out up to the first item that is no assignment.
-/

namespace PageTemplate

open Markup Document

/-! ## The values of an attribute -/

namespace Markup

theorem filter_eraseP_of_disjoint {α : Type} {p q : α → Bool}
    (hpq : ∀ a, p a = true → q a = false) (l : List α) : (l.eraseP p).filter q = l.filter q := by
  induction l with
  | nil => rfl
  | cons a l ih =>
      by_cases ha : p a = true
      · rw [List.eraseP_cons_of_pos ha, List.filter_cons_of_neg (by simp [hpq a ha])]
      · rw [List.eraseP_cons_of_neg ha, List.filter_cons, List.filter_cons, ih]

theorem filter_eraseP_self {α : Type} (p : α → Bool) (l : List α) :
    (l.eraseP p).filter p = (l.filter p).tail := by
  induction l with
  | nil => rfl
  | cons a l ih =>
      by_cases ha : p a = true
      · rw [List.eraseP_cons_of_pos ha, List.filter_cons_of_pos ha, List.tail_cons]
      · rw [List.eraseP_cons_of_neg ha, List.filter_cons_of_neg ha, List.filter_cons_of_neg ha, ih]

theorem QualifiedName.parse_injective : Function.Injective parse := by
  intro raw raw' h
  rw [← text_parse raw, h, text_parse]

/-- A qualifier that was read is not blank, so that its declaration can be written. -/
theorem QualifiedName.parse_declaration_of_parse {raw qualifier : String}
    (h : (parse raw).qualifier = some qualifier) :
    parse ("xmlns:" ++ qualifier) = declaration (some qualifier) := by
  refine parse_eq_declaration_iff.mpr ⟨rfl, ?_⟩
  unfold parse at h
  split at h
  next q rest l name _ =>
    obtain rfl := Option.some.inj h
    intro hempty
    have hnil := congrArg String.toList hempty
    rw [String.toList_ofList] at hnil
    cases hnil
  next => cases h

theorem QualifiedName.ne_declaration {name : QualifiedName} (h : name.isDeclaration = false)
    (qualifier : Option String) : name ≠ declaration qualifier := by
  rintro rfl
  rw [isDeclaration, declares?_eq_some_iff.mpr rfl] at h
  cases h

namespace Element

variable {element : Element} {name other : QualifiedName} {value : String}

/-- The element without the first attribute of a name. -/
def erase (name : QualifiedName) (element : Element) : Element :=
  { element with attributes := element.attributes.eraseP (·.name = name) }

/-- The values of the attributes of one name. -/
def values (element : Element) (name : QualifiedName) : List String :=
  (element.attributes.filter (·.name = name)).map (·.value)

theorem attribute?_eq_head? : element.attribute? name = (element.values name).head? := by
  rw [attribute?, values, List.head?_map, List.head?_filter]

/-- Attributes of other names keep their values and their order. -/
theorem filter_set (keeps : QualifiedName → Bool) (h : keeps name = false) :
    (element.set name value).attributes.filter (keeps ·.name) =
      element.attributes.filter (keeps ·.name) := by
  rcases element.set_cases name value with ⟨front, old, back, hsplit, hname, -, heq⟩ | ⟨-, heq⟩
  · simp [heq, hsplit, hname, h]
  · simp [heq, h]

theorem filter_erase (keeps : QualifiedName → Bool) (h : keeps name = false) :
    (element.erase name).attributes.filter (keeps ·.name) =
      element.attributes.filter (keeps ·.name) := by
  apply filter_eraseP_of_disjoint
  intro attr hattr
  rwa [of_decide_eq_true hattr]

theorem values_set : (element.set name value).values other =
    if other = name then value :: (element.values name).tail else element.values other := by
  split
  next heq =>
    subst heq
    unfold values
    rcases element.set_cases other value with
      ⟨front, old, back, hsplit, hname, hfront, heq⟩ | ⟨hnone, heq⟩
    · have hbefore : front.filter (·.name = other) = [] := by
        simpa [List.filter_eq_nil_iff] using hfront
      simp [heq, hsplit, hname, hbefore]
    · have hall : element.attributes.filter (·.name = other) = [] := by
        simpa [List.filter_eq_nil_iff] using hnone
      simp [heq, hall]
  next hne =>
    exact congrArg (List.map (·.value)) (filter_set (decide <| · = other)
      (decide_eq_false (Ne.symm hne)))

theorem values_erase : (element.erase name).values other =
    if other = name then (element.values name).tail else element.values other := by
  split
  next heq =>
    subst heq
    unfold values erase
    rw [filter_eraseP_self, List.map_tail]
  next hne =>
    exact congrArg (List.map (·.value)) (filter_erase (decide <| · = other)
      (decide_eq_false (Ne.symm hne)))

theorem set_eq_attributes : element.set name value =
    { element with attributes := (element.set name value).attributes } := by
  rcases element.set_cases name value with ⟨front, old, back, -, -, -, heq⟩ | ⟨-, heq⟩ <;>
    rw [heq]

end Element

end Markup

/-! ## Assignments -/

namespace Attributes

/-- A value for the attribute of a name. -/
structure Assignment where
  name : String
  value : Value

namespace Assignment

variable {around : Option String → Option String} {registered : List (String × String)}
  {a : Assignment} {element : Element} {name : QualifiedName} {keeps : QualifiedName → Bool}

def key (a : Assignment) : QualifiedName := .parse a.name

/-- The assignment gives the attribute the text of its value. -/
def sets (a : Assignment) : Bool := !a.value.cancels && !a.value.isNull

/-- What the assignment adds to an attribute that has the given values. It brings a declaration
along when it needs one: the qualifier of its name stands for nothing yet, and is registered. -/
def added? (around : Option String → Option String) (registered : List (String × String))
    (a : Assignment) (name : QualifiedName) (values : List String) : Option String :=
  name.declares?.bind (·.bind fun qualifier =>
    if a.sets && a.key.qualifier = some qualifier && values.isEmpty &&
        (around (some qualifier)).isNone then
      registered.lookup qualifier
    else none)

/-- The element with the declaration that the attribute needs. -/
def declareFor (around : Option String → Option String) (registered : List (String × String))
    (a : Assignment) (element : Element) : Element :=
  match a.key.qualifier with
  | none => element
  | some qualifier =>
    let name := QualifiedName.declaration (some qualifier)
    match a.added? around registered name (element.values name) with
    | some uri => element.set name uri
    | none => element

/-- What an assignment makes of an element, around which qualifiers stand for the given URIs. -/
def apply (around : Option String → Option String) (registered : List (String × String))
    (a : Assignment) (element : Element) : Element :=
  if a.value.cancels then element
  else if a.value.isNull then element.erase a.key
  else (a.declareFor around registered element).set a.key a.value.text

/-- What the assignment makes of the values of an attribute. -/
def onValues (around : Option String → Option String) (registered : List (String × String))
    (a : Assignment) (name : QualifiedName) (values : List String) : List String :=
  if a.key = name then
    if a.value.cancels then values
    else if a.value.isNull then values.tail
    else a.value.text :: values.tail
  else (a.added? around registered name values).elim values fun uri => [uri]

theorem onValues_of_ne {values : List String} (h : a.key ≠ name) :
    a.onValues around registered name values =
      (a.added? around registered name values).elim values fun uri => [uri] := if_neg h

theorem added?_of_sets_eq_false (h : a.sets = false) (values : List String) :
    a.added? around registered name values = none := by
  simp [added?, h]

theorem added?_eq_some {values : List String} {uri : String}
    (h : a.added? around registered name values = some uri) : ∃ qualifier,
      name = .declaration (some qualifier) ∧ a.sets = true ∧ a.key.qualifier = some qualifier ∧
      values = [] ∧ around (some qualifier) = none ∧ registered.lookup qualifier = some uri := by
  unfold added? at h
  obtain ⟨declared, hdeclares, h⟩ := Option.bind_eq_some_iff.mp h
  obtain ⟨qualifier, rfl, h⟩ := Option.bind_eq_some_iff.mp h
  rw [Option.bind_some] at h
  split at h
  next hall =>
    simp only [Bool.and_eq_true, decide_eq_true_eq, List.isEmpty_iff, Option.isNone_iff_eq_none]
      at hall
    exact ⟨qualifier, QualifiedName.declares?_eq_some_iff.mp hdeclares, hall.1.1.1, hall.1.1.2,
      hall.1.2, hall.2, h⟩
  next => cases h

theorem values_declareFor : (a.declareFor around registered element).values name =
    (a.added? around registered name (element.values name)).elim (element.values name)
      fun uri => [uri] := by
  cases hadded : a.added? around registered name (element.values name) with
  | some uri =>
      obtain ⟨qualifier, rfl, -, hqualifier, hnone, -⟩ := added?_eq_some hadded
      unfold declareFor
      simp only [hqualifier, hadded, Element.values_set, if_pos]
      rw [hnone]
      rfl
  | none =>
      unfold declareFor
      split
      · rfl
      next qualifier _ =>
        dsimp only
        split
        next uri hsome =>
          rw [Element.values_set, if_neg]
          · rfl
          · rintro rfl
            rw [hadded] at hsome
            cases hsome
        next => rfl

/-- The declaration that the attribute needs, with its qualifier. -/
theorem declareFor_eq_elim : a.declareFor around registered element =
    (a.key.qualifier.bind fun qualifier => (a.added? around registered (.declaration (some qualifier))
      (element.values (.declaration (some qualifier)))).map (qualifier, ·)).elim element
        fun entry => element.set (.declaration (some entry.1)) entry.2 := by
  unfold declareFor
  cases a.key.qualifier with
  | none => rfl
  | some qualifier =>
      dsimp only
      rw [Option.bind_some]
      cases a.added? around registered (.declaration (some qualifier))
        (element.values (.declaration (some qualifier))) <;> rfl

/-- Each attribute is changed on its own. -/
theorem values_apply : (a.apply around registered element).values name =
    a.onValues around registered name (element.values name) := by
  unfold apply onValues
  by_cases hcancels : a.value.cancels = true
  · have hsets : a.sets = false := by simp [sets, hcancels]
    rw [if_pos hcancels, if_pos hcancels, added?_of_sets_eq_false hsets]
    simp
  rw [if_neg hcancels, if_neg hcancels]
  by_cases hnull : a.value.isNull = true
  · have hsets : a.sets = false := by simp [sets, hnull]
    rw [if_pos hnull, if_pos hnull, added?_of_sets_eq_false hsets, Element.values_erase]
    by_cases hname : a.key = name
    · rw [if_pos hname, if_pos hname.symm, hname]
    · rw [if_neg hname, if_neg (Ne.symm hname)]
      rfl
  rw [if_neg hnull, if_neg hnull, Element.values_set, values_declareFor, values_declareFor]
  by_cases hname : a.key = name
  · subst hname
    rw [if_pos rfl, if_pos rfl]
    cases hadded : a.added? around registered a.key (element.values a.key) with
    | none => rfl
    | some uri =>
        obtain ⟨qualifier, -, -, -, hnone, -⟩ := added?_eq_some hadded
        rw [hnone]
        rfl
  · rw [if_neg (Ne.symm hname), if_neg hname]

/-- The attributes that are neither assigned nor added keep their values and their order. -/
theorem filter_apply (hassigned : a.value.cancels = false → keeps a.key = false)
    (hadded : ∀ name, (a.added? around registered name (element.values name)).isSome →
      keeps name = false) :
    (a.apply around registered element).attributes.filter (keeps ·.name) =
      element.attributes.filter (keeps ·.name) := by
  unfold apply
  split
  · rfl
  next hcancels =>
    have hkey := hassigned (by simpa using hcancels)
    split
    · exact Element.filter_erase keeps hkey
    · rw [Element.filter_set keeps hkey]
      unfold declareFor
      split
      · rfl
      next qualifier _ =>
        dsimp only
        split
        next uri hsome => exact Element.filter_set keeps (hadded _ (by rw [hsome]; rfl))
        next => rfl

theorem apply_eq_attributes : a.apply around registered element =
    { element with attributes := (a.apply around registered element).attributes } := by
  have hset : ∀ {element' : Element} {key : QualifiedName} {value : String},
      element' = { element with attributes := element'.attributes } →
      element'.set key value =
        { element with attributes := (element'.set key value).attributes } := by
    intro element' key value h
    cases element
    cases element'
    cases h
    exact Element.set_eq_attributes
  unfold apply
  split
  · rfl
  split
  · rfl
  · apply hset
    unfold declareFor
    split
    · rfl
    · dsimp only
      split
      · exact hset rfl
      · rfl

end Assignment

/-- What several assignments make of an element, one after the other. -/
def applyAll (around : Option String → Option String) (registered : List (String × String))
    (assignments : List Assignment) (element : Element) : Element :=
  assignments.foldl (fun element a => a.apply around registered element) element

theorem values_applyAll {around : Option String → Option String}
    {registered : List (String × String)} (assignments : List Assignment) (element : Element)
    (name : QualifiedName) :
    (applyAll around registered assignments element).values name =
      assignments.foldl (fun values a => a.onValues around registered name values)
        (element.values name) := by
  unfold applyAll
  induction assignments generalizing element with
  | nil => rfl
  | cons a assignments ih => rw [List.foldl_cons, ih, Assignment.values_apply, List.foldl_cons]

end Attributes

/-! ## The surroundings of an element -/

namespace Markup.Document

variable {d t : Document} {x : NodeId}

/-- What a qualifier stands for around a node. -/
def namespaceAround (d : Document) (x : NodeId) (qualifier : Option String) : Option String :=
  (d.parent x).bind (d.lookupNamespace · qualifier)

theorem Grounded.lookupNamespace_eq_around (hground : d.Grounded x) {element : Element}
    (helement : d.element? x = some element) (qualifier : Option String) :
    d.lookupNamespace x qualifier =
      (element.values (.declaration qualifier)).head?.or (d.namespaceAround x qualifier) := by
  obtain ⟨top, htop, hlt, hbelow⟩ := hground.exists_top
  rw [hground.linked.lookupNamespace_eq htop hlt hbelow, declared?, helement, Option.bind_some,
    Element.attribute?_eq_head?]
  rfl

/-- The surroundings stay what they are when what is above the node does. -/
theorem Grounded.namespaceAround_eq (hground : d.Grounded x) (hlinked : t.WellLinked)
    (hsize : d.size ≤ t.size) (hparent : t.parent x = d.parent x)
    (hsame : ∀ n, d.Below n x → n ≠ x → t.kind n = d.kind n ∧ t.parent n = d.parent n) :
    t.namespaceAround x = d.namespaceAround x := by
  obtain ⟨top, htop, hbelow⟩ := hground.rooted
  funext qualifier
  unfold namespaceAround
  rw [hparent]
  cases hp : d.parent x with
  | none => rfl
  | some p =>
      have houter : d.Grounded p := ⟨hground.linked, (hground.linked.lt_of_parent hp).1, top, htop,
        hground.linked.below_parent htop hbelow hp⟩
      obtain ⟨-, hlookup, -⟩ := houter.of_above_same hlinked hsize fun n hn => by
        refine hsame n (.child hn (hground.linked.mem_children hp)) ?_
        rintro rfl
        exact hground.linked.not_below_parent htop hbelow hp hn
      exact hlookup qualifier

/-- A change of the element leaves its surroundings what they are. -/
theorem Relabeled.around (h : Relabeled x d t) (hground : d.Grounded x) :
    t.Grounded x ∧ t.namespaceAround x = d.namespaceAround x := by
  have hsize : d.size ≤ t.size := Nat.le_of_eq h.size_eq.symm
  obtain ⟨top, htop, hbelow⟩ := hground.rooted
  have hbelow' : t.Below top x := by
    apply hbelow.congr
    intro n _
    rw [h.children_eq]
    exact List.Subset.refl _
  refine ⟨⟨h.confined.linked, h.size_eq ▸ hground.lt, top, (h.parent_eq top).trans htop, hbelow'⟩,
    hground.namespaceAround_eq h.confined.linked hsize (h.parent_eq x) fun n _ hne => ?_⟩
  exact ⟨h.confined.kind_eq hne, h.parent_eq n⟩

end Markup.Document

/-! ## Carrying out a list -/

namespace Attributes

variable {settings : Settings} {ctx : Context} {globals : Globals} {s : RenderState}
  {d : Document} {element : Element} {item : String} {a : Assignment}

/-- What an item assigns, if it is well-formed and its expression has a value. -/
def assignment? (settings : Settings) (ctx : Context) (globals : Globals) (item : String) :
    Option Assignment := do
  let found ← (Directive.readAssignment item).toOption
  let value ← (Expression.parse found.2 >>=
    (ctx.environment settings globals).evaluate).toOption
  return ⟨found.1, value⟩

/-- The assignments up to the first item that is none. -/
def carriedOut (settings : Settings) (ctx : Context) (globals : Globals) :
    List String → List Assignment
  | [] => []
  | item :: items =>
    match assignment? settings ctx globals item with
    | some a => a :: carriedOut settings ctx globals items
    | none => []

theorem exists_of_assignment? (h : assignment? settings ctx globals item = some a) :
    ∃ expression, Directive.readAssignment item = .ok (a.name, expression) ∧
      (Expression.parse expression >>= (ctx.environment settings globals).evaluate) =
        .ok a.value := by
  unfold assignment? at h
  obtain ⟨⟨name, expression⟩, hread, h⟩ := Option.bind_eq_some_iff.mp h
  obtain ⟨value, hvalue, h⟩ := Option.bind_eq_some_iff.mp h
  obtain rfl := Option.some.inj h
  exact ⟨expression, eq_ok_of_toOption hread, eq_ok_of_toOption hvalue⟩

/-- The declaration that is missing is the one that the assignment brings along. -/
theorem missingDeclaration?_eq_added? {t : Document} {around : Option String → Option String}
    (hsets : a.sets = true) (hlookup : ∀ qualifier, t.lookupNamespace ctx.node qualifier =
      (element.values (.declaration qualifier)).head?.or (around qualifier)) :
    missingDeclaration? settings ctx t a.key = a.key.qualifier.bind fun qualifier =>
      (a.added? around settings.vocabularies.extra (.declaration (some qualifier))
        (element.values (.declaration (some qualifier)))).map (qualifier, ·) := by
  unfold missingDeclaration?
  cases hqualifier : a.key.qualifier with
  | none => rfl
  | some qualifier =>
      simp only [Option.bind_some, Option.pure_def, Option.bind_eq_bind]
      unfold Assignment.added?
      rw [hlookup, QualifiedName.declares?_eq_some_iff.mpr rfl, hsets, hqualifier]
      cases element.values (.declaration (some qualifier)) with
      | nil =>
          cases haround : around (some qualifier) with
          | none =>
              cases hregistered : settings.vocabularies.extra.lookup qualifier <;>
                simp [haround, hregistered]
          | some uri => simp [haround]
      | cons value values => simp

/-- Setting an attribute in a rendering. -/
theorem outcome_edit_setAttribute {x : NodeId} (helement : s.document.isElement x = true)
    (raw value : String) :
    outcome (Rendering.edit (setAttribute x raw value)) s = (.ok (), { s with
      document := s.document.updateElement x (Element.set (QualifiedName.parse raw) value) }) :=
  Rendering.outcome_edit_ok (Checked.outcome_setAttribute helement raw value)

section

variable (hground : d.Grounded ctx.node) (hchanged : Reattributed ctx.node d s.document)
  (helement : s.document.element? ctx.node = some element) (hcache : s.cache.IsFaithful)

include hcache

/-- An item that is no assignment fails, and changes nothing. -/
theorem outcome_assignItem_error (hnone : assignment? settings ctx s.globals item = none) :
    ∃ stop cache, outcome (assignItem settings ctx item) s =
      (.error stop, { s with cache }) ∧ cache.IsFaithful := by
  unfold assignItem
  dsimp only
  cases hread : Directive.readAssignment item with
  | error message =>
      exact ⟨.failed (.directiveSyntax settings.vocabularies.attributes.text
        (describeElement s.document ctx.node) item message), s.cache, rfl, hcache⟩
  | ok found =>
      obtain ⟨name, expression⟩ := found
      have hfound : outcome (ctx.readDirective settings.vocabularies.attributes item
          (.ok (name, expression))) s = (.ok (name, expression), s) := rfl
      have hevaluate := ctx.outcome_evaluateDirective settings hcache
        settings.vocabularies.attributes expression
      cases hvalue : Expression.parse expression >>=
          (ctx.environment settings s.globals).evaluate with
      | ok value => simp [assignment?, hread, hvalue, Except.toOption] at hnone
      | error source =>
          rw [hvalue] at hevaluate
          refine ⟨.failed (.evaluation settings.vocabularies.attributes.text
            (describeElement s.document ctx.node) expression source), (s.cache.get expression).2,
            ?_, (hcache.get expression).2⟩
          rw [outcome_bind_ok hfound]
          dsimp only
          rw [outcome_bind, hevaluate]
          rfl

include hground hchanged helement

/-- An item that is an assignment makes of the element what the assignment says. -/
theorem outcome_assignItem_ok (ha : assignment? settings ctx s.globals item = some a) :
    ∃ d' cache, outcome (assignItem settings ctx item) s =
        (.ok (), { s with document := d', cache }) ∧ cache.IsFaithful ∧
      Reattributed ctx.node d d' ∧
      d'.element? ctx.node =
        some (a.apply (d.namespaceAround ctx.node) settings.vocabularies.extra element) := by
  obtain ⟨expression, hread, hvalue⟩ := exists_of_assignment? ha
  have hevaluate := ctx.outcome_evaluateDirective settings hcache
    settings.vocabularies.attributes expression
  rw [hvalue] at hevaluate
  have hfound : outcome (ctx.readDirective settings.vocabularies.attributes item
      (Directive.readAssignment item)) s = (.ok (a.name, expression), s) := by
    rw [hread]
    rfl
  have hcache' := (hcache.get expression).2
  generalize (s.cache.get expression).2 = cache at hevaluate hcache'
  obtain ⟨hground', haround⟩ := hchanged.around hground
  have hset : ∀ {t : Document} {made : Element} (key : QualifiedName) (value : String),
      Reattributed ctx.node d t → t.element? ctx.node = some made →
      Reattributed ctx.node d (t.updateElement ctx.node (Element.set key value)) ∧
        (t.updateElement ctx.node (Element.set key value)).element? ctx.node =
          some (made.set key value) := by
    intro t made key value ht hmade
    refine ⟨ht.trans (reattributed_updateElement ht.confined.linked (ht.size_eq ▸ hground.lt)
      fun _ => Element.set_eq_attributes), ?_⟩
    rw [element?_updateElement, if_pos rfl, hmade, Option.map_some]
  have hiselement : ∀ {t : Document} {made : Element}, t.element? ctx.node = some made →
      t.isElement ctx.node = true :=
    fun hmade => Option.isSome_iff_exists.mpr ⟨_, hmade⟩
  unfold assignItem
  dsimp only
  rw [outcome_bind_ok hfound]
  dsimp only
  rw [outcome_bind_ok hevaluate]
  unfold Assignment.apply
  by_cases hcancels : a.value.cancels = true
  · simp only [hcancels, if_true]
    exact ⟨_, cache, rfl, hcache', hchanged, helement⟩
  simp only [hcancels, if_false, Bool.false_eq_true]
  by_cases hnull : a.value.isNull = true
  · simp only [hnull, if_true]
    refine ⟨_, cache, rfl, hcache', hchanged.trans (reattributed_removeAttribute
      hchanged.confined.linked (hchanged.size_eq ▸ hground.lt) a.name), ?_⟩
    rw [element?_removeAttribute, if_pos rfl, helement]
    rfl
  simp only [hnull, if_false, Bool.false_eq_true]
  have hsets : a.sets = true := by simp [Assignment.sets, hcancels, hnull]
  have hlookup : ∀ qualifier, s.document.lookupNamespace ctx.node qualifier =
      (element.values (.declaration qualifier)).head?.or (d.namespaceAround ctx.node qualifier) :=
    fun qualifier => haround ▸ hground'.lookupNamespace_eq_around helement qualifier
  have hmissing : missingDeclaration? settings ctx s.document a.key = _ :=
    missingDeclaration?_eq_added? hsets hlookup
  rw [outcome_bind_ok (Rendering.outcome_document _), Assignment.declareFor_eq_elim, ← hmissing]
  dsimp only
  cases hneeds : missingDeclaration? settings ctx s.document a.key with
  | none =>
      obtain ⟨hchanged', hmade⟩ := hset a.key a.value.text hchanged helement
      have hneeds : missingDeclaration? settings ctx s.document (.parse a.name) = none := hneeds
      rw [hneeds]
      exact ⟨_, cache, outcome_edit_setAttribute (s := { s with cache }) (hiselement helement) _ _,
        hcache', hchanged', hmade⟩
  | some entry =>
      obtain ⟨qualifier, uri⟩ := entry
      have hqualifier : (QualifiedName.parse a.name).qualifier = some qualifier := by
        rw [hneeds] at hmissing
        obtain ⟨qualifier', hqualifier, hadded⟩ := Option.bind_eq_some_iff.mp hmissing.symm
        obtain ⟨_, _, heq⟩ := Option.map_eq_some_iff.mp hadded
        exact hqualifier.trans (congrArg some (Prod.mk.inj heq).1)
      obtain ⟨hdeclared, hwith⟩ := hset (.declaration (some qualifier)) uri hchanged helement
      obtain ⟨hchanged', hmade⟩ := hset a.key a.value.text hdeclared hwith
      have hneeds : missingDeclaration? settings ctx s.document (.parse a.name) =
        some (qualifier, uri) := hneeds
      rw [hneeds]
      dsimp only
      rw [outcome_bind_ok (outcome_edit_setAttribute (s := { s with cache }) (hiselement helement)
          _ _), QualifiedName.parse_declaration_of_parse hqualifier]
      exact ⟨_, cache, outcome_edit_setAttribute (hiselement hwith) _ _, hcache', hchanged', hmade⟩

/-- A list makes of the element what the assignments say that are carried out. It fails when one of
its items is none. -/
theorem outcome_assignItems (items : List String) :
    ∃ result d' cache, outcome (items.forM (assignItem settings ctx)) s =
        (result, { s with document := d', cache }) ∧ cache.IsFaithful ∧
      Reattributed ctx.node d d' ∧
      d'.element? ctx.node = some (applyAll (d.namespaceAround ctx.node) settings.vocabularies.extra
        (carriedOut settings ctx s.globals items) element) ∧
      (result = .ok () ↔ ∀ item ∈ items, (assignment? settings ctx s.globals item).isSome) := by
  induction items generalizing s element with
  | nil => exact ⟨.ok (), s.document, s.cache, rfl, hcache, hchanged, helement, by simp⟩
  | cons item items ih =>
      rw [outcome_forM_cons]
      unfold carriedOut
      cases ha : assignment? settings ctx s.globals item with
      | none =>
          obtain ⟨stop, cache, hitem, hcache'⟩ := outcome_assignItem_error hcache ha
          refine ⟨.error stop, s.document, cache, ?_, hcache', hchanged, helement, by simp [ha]⟩
          rw [outcome_bind, hitem]
      | some a =>
          obtain ⟨d₁, cache₁, hitem, hcache₁, hchanged₁, hmade⟩ :=
            outcome_assignItem_ok hground hchanged helement hcache ha
          obtain ⟨result, d', cache, hitems, hcache', hchanged', hmade', hiff⟩ :=
            ih (s := { s with document := d₁, cache := cache₁ }) hchanged₁ hmade hcache₁
          refine ⟨result, d', cache, (outcome_bind_ok hitem).trans hitems, hcache', hchanged', hmade',
            hiff.trans ?_⟩
          simp [ha]

end

end Attributes

end PageTemplate
