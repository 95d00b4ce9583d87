import PageTemplate.Proofs.Markup.NodeTable
import PageTemplate.Proofs.Render.Repeating
import PageTemplate.Render.Renderer

/-! # What a repetition leaves of an element

The copies of a repeated element stand where the element stood, one for each item and in the order
of the items. Each has the tree of the element but for the repetition, and a scope beside that of
the element, which tells the item and its number. The element is put aside as it is, and nothing
else changes.
-/

namespace PageTemplate

open Markup Document

/-- The tree with another element at its top. -/
def Markup.Tree.mapRoot (change : Element → Element) : Tree → Tree
  | .node kind children => .node (kind.mapElement change) children

/-- A scope is what another one is but for a round of a repetition, which is bound in it. -/
structure Scope.InRound (scope scope' : Scope) (round : Repetition) : Prop where
  depth_eq : scope'.depth = scope.depth
  parent_eq : scope'.parent = scope.parent
  caught_eq : scope'.caught? = scope.caught?
  lookupLocal_eq : ∀ name, scope'.lookupLocal name =
    if name = round.name then some round.item else scope.lookupLocal name
  repetition_eq : ∀ name, scope'.repetition? name =
    if name = round.name then some round else scope.repetition? name

theorem Scope.inRound_bindRepetition (scope : Scope) (round : Repetition) :
    InRound scope (scope.bindRepetition round) round :=
  ⟨rfl, rfl, rfl, scope.lookupLocal_bindRepetition round, fun name =>
    Keyed.lookup_insert round.name name round scope.frame.repetitions⟩

namespace Repeat

variable {settings : Settings} {v : Vocabularies} {ctx : Context} {d d' : Document} {p : NodeId}
  {s : RenderState} {name value expression : String} {items : List Value} {result : Value}
  {copies : List Context} {round : Repetition} {c : Context}

/-- The copy for the item at `index`. -/
structure CopyAt (v : Vocabularies) (ctx : Context) (p : NodeId) (d d' : Document) (name : String)
    (items : List Value) (index : Nat) (item : Value) (c : Context) : Prop where
  new : d.size ≤ c.node
  parent_eq : d'.parent c.node = some p
  tree_eq : d'.tree c.node = (d.tree ctx.node).mapRoot fun element =>
    { element with
      attributes := element.attributes.eraseP (d.attributeMatches ctx.node · v.repetition) }
  written_eq : c.written = d'.attributes c.node
  macroStack_eq : c.macroStack = ctx.macroStack
  inRound : Scope.InRound ctx.scope c.scope { name, index, count := items.length, item }
  /-- Of all rounds the first one alone is at the start, and the last one alone is at the end. -/
  flags : ∀ round, c.scope.repetition? name = some round →
    round.member "start" = some (.bool (index == 0)) ∧
    round.member "end" = some (.bool (index + 1 == items.length))

/-- Copies for all items stand where the element stood, which is put aside. -/
structure Multiplied (v : Vocabularies) (ctx : Context) (p : NodeId) (d d' : Document)
    (name : String) (items : List Value) (copies : List Context) : Prop where
  linked : d'.WellLinked
  length_eq : copies.length = items.length
  copyAt : ∀ {index item c}, items[index]? = some item → copies[index]? = some c →
    CopyAt v ctx p d d' name items index item c
  children_outer : ∃ front back, d.children p = front ++ ctx.node :: back ∧
    d'.children p = front ++ copies.map (·.node) ++ back
  kind_outer : d'.kind p = d.kind p
  parent_outer : d'.parent p = d.parent p
  aside : d'.node ctx.node = ⟨d.kind ctx.node, none, d.children ctx.node⟩
  same : ∀ n < d.size, n ≠ p → n ≠ ctx.node → d'.node n = d.node n

section

variable (hground : d.Grounded ctx.node) (hx : d.parent ctx.node = some p)

include hground hx

/-- The element is put aside with what lies below it. -/
theorem Copying.node_aside {rounds : List Repetition} (h : Copying v ctx p d rounds copies d') :
    (d'.detach ctx.node).node ctx.node = ⟨d.kind ctx.node, none, d.children ctx.node⟩ := by
  obtain ⟨hground', hparent, -, hchildren, -⟩ := h.original hground hx
  have hlinked := hground'.linked
  have hself : ctx.node ∉ d.children ctx.node := by
    intro hself
    obtain ⟨top, htop, hbelow⟩ := hground.rooted
    exact hground.linked.not_below_parent htop hbelow (hground.linked.parent_eq hself) .refl
  have hkind : (d'.detach ctx.node).kind ctx.node = d.kind ctx.node := by
    rw [kind_detach, (h.old_eq hground.lt).1]
  have hparent : (d'.detach ctx.node).parent ctx.node = none := by
    rw [hlinked.parent_detach, if_pos rfl]
  have hchildren : (d'.detach ctx.node).children ctx.node = d.children ctx.node := by
    rw [hlinked.children_detach, hchildren, filter_of_not_mem hself]
  rw [← hkind, ← hparent, ← hchildren]
  rfl

/-- A copy has the tree of the element but for the repetition. -/
theorem Unrolled.tree_copy {rounds : List Repetition} {element : Element}
    (h : Unrolled v ctx p d rounds copies d') (hc : CopyOf v ctx p d d' round c)
    (helement : d.element? ctx.node = some element) :
    d'.tree c.node = (d.tree ctx.node).mapRoot fun element =>
      { element with
        attributes := element.attributes.eraseP (d.attributeMatches ctx.node · v.repetition) } := by
  have hcopy : d'.Grounded c.node :=
    .of_parent h.linked (h.outer hground hx).1.rooted hc.parent_eq
  have hchildren : (d'.children c.node).map d'.tree = (d.children ctx.node).map d.tree :=
    map_eq_of_forall₂ hc.children fun _ _ _ _ hsame => hsame.tree_eq
  have hkind := hc.element?_eq
  rw [helement, Option.map_some] at hkind
  rw [hcopy.throughout.tree_eq, hground.throughout.tree_eq, hchildren, Tree.mapRoot,
    NodeKind.eq_element hkind, NodeKind.eq_element helement]
  rfl

end

theorem getElem?_roundsOf (name : String) (items : List Value) (index : Nat) :
    (roundsOf name items)[index]? = items[index]?.map fun item =>
      { name, index, count := items.length, item } := by
  simp [roundsOf, Function.comp_def]

/-- Repetition multiplies an element in its place: it succeeds for every value with items, also for
none, and leaves one copy of the element for each of them. -/
theorem handle_multiplies (hlinked : s.document.WellLinked)
    (hattached : s.document.isAttached ctx.node = true)
    (hx : s.document.parent ctx.node = some p) (helement : s.document.isElement ctx.node = true)
    (hdirective : ctx.directive? s.document settings.vocabularies.repetition = some value)
    (hread : Directive.readRepeat value = .ok (name, expression))
    (hevaluate : (outcome (ctx.evaluateDirective settings settings.vocabularies.repetition
      expression) s).1 = .ok result)
    (hitems : result.items? = some items) :
    ∃ copies d' cache,
      outcome (handle settings ctx) s =
        (.ok { contexts := copies }, { s with document := d', cache }) ∧
      Multiplied settings.vocabularies ctx p s.document d' name items copies := by
  have hlt := (hlinked.lt_of_parent hx).2
  have hground : s.document.Grounded ctx.node := .of_isAttached hlinked hlt hattached
  have hyields : items? settings ctx s = some (name, items) := by
    unfold items?
    rw [hdirective]
    dsimp only
    rw [hread]
    dsimp only
    rw [hevaluate]
    cases result <;> simp_all [Value.items?, Value.cancels, Value.isNull]
  obtain ⟨copies, t, cache, hhandle, hcopying⟩ := exists_copying hyields hground hx
  have hunrolled := hcopying.unrolled hground hx
  obtain ⟨element, helement⟩ := Option.isSome_iff_exists.mp helement
  refine ⟨copies, t.detach ctx.node, cache, hhandle, hunrolled.linked, ?_, ?_,
    hunrolled.children_outer, hunrolled.outer_kind, hunrolled.outer_parent,
    hcopying.node_aside hground hx, hunrolled.same⟩
  · rw [← hunrolled.copies.length_eq, roundsOf, List.length_map, List.length_zipIdx]
  · intro index item c hitem hcopy
    have hround : (roundsOf name items)[index]? =
        some { name, index, count := items.length, item } := by
      rw [getElem?_roundsOf, hitem, Option.map_some]
    have hc : CopyOf settings.vocabularies ctx p s.document (t.detach ctx.node)
        { name, index, count := items.length, item } c := by
      obtain ⟨hlt, hround⟩ := List.getElem?_eq_some_iff.mp hround
      obtain ⟨hlt', hcopy⟩ := List.getElem?_eq_some_iff.mp hcopy
      rw [← hround, ← hcopy]
      exact hunrolled.copies.get hlt hlt'
    have hscope : Scope.InRound ctx.scope c.scope
        { name, index, count := items.length, item } := by
      rw [hc.context_eq]
      exact ctx.scope.inRound_bindRepetition _
    refine ⟨hc.new, hc.parent_eq, hunrolled.tree_copy hground hx hc helement, ?_, ?_, hscope, ?_⟩
    · rw [hc.context_eq]
      rfl
    · rw [hc.context_eq]
      rfl
    · intro round hrecord
      rw [hscope.repetition_eq, if_pos rfl] at hrecord
      obtain rfl := Option.some.inj hrecord
      exact ⟨rfl, rfl⟩

/-- A page with a repeated element between two others. -/
def betweenPage : Document where
  nodes := #[
    { kind := .root, children := [1] },
    { kind := .element { name := .parse "r" }, parent := some 0, children := [2, 3, 4] },
    { kind := .element { name := .parse "b" }, parent := some 1 },
    { kind := .element {
        name := .parse "p"
        attributes := [⟨.parse "class", "c"⟩, ⟨.parse "tal:repeat", "x here"⟩,
          ⟨.parse "tal:content", "x"⟩] },
      parent := some 1, children := [5] },
    { kind := .element { name := .parse "i" }, parent := some 1 },
    { kind := .text "t", parent := some 3 }]

/-- The element lies in a round of another repetition of that name, and the items are those of a
map. -/
theorem handle_multiplies_betweenPage :
    let s := Renderer.start betweenPage (.map [("k", .string "a"), ("l", .string "b")]) {}
    let ctx := Context.ofNode s.document 3
      (Scope.bindRepetition {} { name := "x", index := 4, count := 9, item := .string "o" })
    s.document.WellLinked ∧ s.document.isAttached ctx.node = true ∧
      s.document.parent ctx.node = some 1 ∧ s.document.isElement ctx.node = true ∧
      ∃ value expression result items,
        ctx.directive? s.document (Settings.vocabularies {}).repetition = some value ∧
        Directive.readRepeat value = .ok ("x", expression) ∧
        (outcome (ctx.evaluateDirective {} (Settings.vocabularies {}).repetition
          expression) s).1 = .ok result ∧
        result.items? = some items ∧ items.map Value.text = ["a", "b"] ∧
        ∃ copies d' cache,
          outcome (handle {} ctx) s =
            (.ok { contexts := copies }, { s with document := d', cache }) ∧
          Multiplied (Settings.vocabularies {}) ctx 1 s.document d' "x" items copies := by
  intro s ctx
  have hlinked : s.document.WellLinked := by decide +kernel
  have hattached : s.document.isAttached ctx.node = true := by decide +kernel
  have helement : s.document.isElement ctx.node = true := by decide +kernel
  have hyields : (items? {} ctx s).map (fun found => (found.1, found.2.map Value.text)) =
      some ("x", ["a", "b"]) := by decide +kernel
  obtain ⟨⟨name, items⟩, hfound, htexts⟩ := Option.map_eq_some_iff.mp hyields
  obtain ⟨rfl, htexts⟩ := Prod.mk.inj htexts
  obtain ⟨value, expression, result, cache, hdirective, hread, hevaluate, -, -, hitems⟩ :=
    exists_of_items? hfound
  have hevaluate := congrArg (·.1) hevaluate
  exact ⟨hlinked, hattached, rfl, helement, value, expression, result, items, hdirective, hread,
    hevaluate, hitems, htexts,
    handle_multiplies hlinked hattached rfl helement hdirective hread hevaluate hitems⟩

end Repeat

end PageTemplate
