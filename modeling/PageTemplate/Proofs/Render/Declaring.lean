import PageTemplate.Proofs.Markup.Ancestry
import PageTemplate.Proofs.Keyed
import PageTemplate.Proofs.Markup.AttributeEdits
import PageTemplate.Render.Vocabulary

/-! # Declarations in force, and declarations that are added

The declarations in force at a node give each qualifier what it stands for there. Of them the ones
that bind a qualifier to a vocabulary can be written again: on an element that lacks them they are
added behind its attributes.
-/

namespace PageTemplate

open Markup Document

namespace Markup

/-! ## Adding declarations to an element -/

/-- What is read after `xmlns:` is the qualifier that is declared, unless nothing is there. -/
theorem QualifiedName.parse_eq_declaration_iff {key : String} {qualifier : Option String} :
    parse ("xmlns:" ++ key) = declaration qualifier ↔ qualifier = some key ∧ key ≠ "" := by
  by_cases hkey : key = ""
  · subst hkey
    have hread : parse ("xmlns:" ++ "") = ⟨none, "xmlns:"⟩ := by decide +kernel
    rw [hread]
    cases qualifier <;> simp [declaration]
  · obtain ⟨c, cs, hcs⟩ := List.exists_cons_of_ne_nil (mt String.toList_eq_nil_iff.mp hkey)
    have hsplit : Text.splitAt? (· == ':') ("xmlns:" ++ key).toList =
        some ("xmlns".toList, c :: cs) := by
      have htext : ("xmlns:" ++ key).toList = "xmlns".toList ++ ':' :: c :: cs := by simp [hcs]
      have hbefore : ∀ c ∈ "xmlns".toList, (c == ':') = false := by simp
      rw [htext]
      exact Text.splitAt?_append hbefore rfl _
    have hread : parse ("xmlns:" ++ key) = ⟨some "xmlns", key⟩ := by
      have htext : String.ofList (c :: cs) = key := by rw [← hcs, String.ofList_toList]
      unfold parse
      rw [hsplit]
      exact congrArg (QualifiedName.mk (some "xmlns")) htext
    rw [hread]
    cases qualifier <;> simp [declaration, hkey, eq_comm]

namespace Element

variable {element : Element} {name : QualifiedName}

/-- The element with a declaration behind its attributes, unless it has an attribute of that
name. -/
def declare (element : Element) (entry : String × String) : Element :=
  let name := QualifiedName.parse ("xmlns:" ++ entry.1)
  if (element.attribute? name).isSome then element
  else { element with attributes := element.attributes ++ [⟨name, entry.2⟩] }

/-- The element with those of the declarations that it lacks. -/
def declareAll (element : Element) (entries : List (String × String)) : Element :=
  entries.foldl declare element

/-- An attribute that is not there is added behind the others. -/
theorem set_of_attribute?_eq_none {value : String} (h : element.attribute? name = none) :
    element.set name value =
      { element with attributes := element.attributes ++ [⟨name, value⟩] } := by
  have hnone : element.attributes.findIdx? (·.name = name) = none := by
    simpa [attribute?, List.findIdx?_eq_none_iff] using h
  simp only [set, hnone]

theorem attribute?_declare (entry : String × String) :
    (element.declare entry).attribute? name = (element.attribute? name).or
      (if QualifiedName.parse ("xmlns:" ++ entry.1) = name then some entry.2 else none) := by
  simp only [declare]
  split
  next hsome =>
    by_cases hname : QualifiedName.parse ("xmlns:" ++ entry.1) = name
    · rw [hname] at hsome
      rw [Option.or_of_isSome hsome]
    · rw [if_neg hname, Option.or_none]
  next =>
    simp only [attribute?, List.find?_append, Option.map_or, List.find?_singleton,
      decide_eq_true_eq]
    split <;> rfl

theorem attribute?_declareAll (entries : List (String × String)) :
    (element.declareAll entries).attribute? name = (element.attribute? name).or
      ((entries.find? fun entry =>
        QualifiedName.parse ("xmlns:" ++ entry.1) = name).map (·.2)) := by
  induction entries generalizing element with
  | nil => simp [declareAll]
  | cons entry entries ih =>
      rw [declareAll, List.foldl_cons, ← declareAll, ih, attribute?_declare, Option.or_assoc,
        List.find?_cons]
      by_cases hname : QualifiedName.parse ("xmlns:" ++ entry.1) = name <;> simp [hname]

theorem name_declareAll (entries : List (String × String)) :
    (element.declareAll entries).name = element.name := by
  apply List.foldlRecOn (motive := fun made : Element => made.name = element.name)
  · rfl
  · intro made hmade entry _
    simp only [declare]
    split <;> exact hmade

theorem subset_attributes_declareAll (entries : List (String × String)) :
    element.attributes ⊆ (element.declareAll entries).attributes := by
  apply List.foldlRecOn (motive := fun made : Element => element.attributes ⊆ made.attributes)
  · exact List.Subset.refl _
  · intro made hmade entry _
    simp only [declare]
    split
    · exact hmade
    · exact List.subset_append_of_subset_left _ hmade

/-- After that the element declares what it declared, and what was to be added. -/
theorem declared_declareAll (entries : List (String × String)) (qualifier : Option String) :
    (element.declareAll entries).attribute? (QualifiedName.declaration qualifier) =
      (element.attribute? (QualifiedName.declaration qualifier)).or
        ((qualifier.filter (· ≠ "")).bind (entries.lookup ·)) := by
  rw [attribute?_declareAll]
  congr 1
  simp only [QualifiedName.parse_eq_declaration_iff]
  induction entries with
  | nil => cases qualifier <;> simp [Option.filter]
  | cons entry entries ih =>
      obtain ⟨key, uri⟩ := entry
      rw [List.find?_cons]
      by_cases hkey : qualifier = some key ∧ key ≠ ""
      · obtain ⟨rfl, hkey⟩ := hkey
        simp [hkey, Option.filter]
      · rw [decide_eq_false hkey]
        refine ih.trans ?_
        cases qualifier with
        | none => rfl
        | some name =>
            by_cases hname : name = ""
            · simp [hname, Option.filter]
            · have hne : name ≠ key := by
                rintro rfl
                exact hkey ⟨rfl, hname⟩
              simp [hname, Option.filter, Keyed.lookup_cons_of_ne hne]

end Element

end Markup

/-! ## Adding declarations in a document -/

theorem element?_declareMissing (d : Document) (x n : NodeId) (entries : List (String × String)) :
    (declareMissing d x entries).element? n =
      if n = x then (d.element? x).map (·.declareAll entries) else d.element? n := by
  induction entries generalizing d with
  | nil =>
      simp only [declareMissing, Element.declareAll, List.foldl_nil, Option.map_id']
      split
      next hn => rw [hn]
      next => rfl
  | cons entry entries ih =>
      have hstep : ∀ m, (declareMissing d x [entry]).element? m =
          if m = x then (d.element? x).map (·.declare entry) else d.element? m := by
        intro m
        simp only [declareMissing, List.foldl_cons, List.foldl_nil]
        cases hx : d.element? x with
        | none =>
            rw [attribute?, hx, Option.bind_none, if_neg (by simp), element?_updateElement, hx]
            rfl
        | some element =>
            rw [attribute?, hx, Option.bind_some]
            by_cases hsome :
                (element.attribute? (QualifiedName.parse ("xmlns:" ++ entry.1))).isSome
            · rw [if_pos hsome]
              split
              next hm => simp [hm, hx, Element.declare, hsome]
              next => rfl
            · rw [if_neg hsome, element?_updateElement, hx]
              simp only [Option.map_some, Element.declare, if_neg hsome]
              rw [Element.set_of_attribute?_eq_none (Option.not_isSome_iff_eq_none.mp hsome)]
      have hrest := ih (declareMissing d x [entry])
      rw [hstep, hstep, if_pos rfl, Option.map_map] at hrest
      refine hrest.trans ?_
      by_cases hn : n = x
      · rw [if_pos hn, if_pos hn]
        rfl
      · rw [if_neg hn, if_neg hn, if_neg hn]

/-! ## The declarations in force -/

namespace Markup.Document

variable {d : Document} {n : NodeId} {qualifier : Option String}

theorem lookup_declarations : (d.declarations n).lookup qualifier = d.declared? n qualifier := by
  have hlist : ∀ attributes : List Attribute,
      (attributes.filterMap fun attr => attr.name.declares?.map (·, attr.value)).lookup qualifier =
        (attributes.find? (·.name = QualifiedName.declaration qualifier)).map (·.value) := by
    intro attributes
    induction attributes with
    | nil => rfl
    | cons attr attributes ih =>
        rw [List.filterMap_cons, List.find?_cons]
        by_cases hdeclares : attr.name = QualifiedName.declaration qualifier
        · have hread := QualifiedName.declares?_eq_some_iff.mpr hdeclares
          rw [hread, decide_eq_true hdeclares]
          exact List.lookup_cons_self
        · rw [decide_eq_false hdeclares]
          cases hread : attr.name.declares? with
          | none => exact ih
          | some other =>
              have hne : qualifier ≠ other := by
                rintro rfl
                exact hdeclares (QualifiedName.declares?_eq_some_iff.mp hread)
              exact (Keyed.lookup_cons_of_ne hne).trans ih
  unfold declarations declared? attributes
  rw [hlist]
  cases d.element? n <;> rfl

section AddDeclarations

variable {seen entries : List (Option String × String)}

/-- The first declaration of a qualifier counts. -/
theorem lookup_addDeclarations :
    (addDeclarations seen entries).lookup qualifier =
      (seen.lookup qualifier).or (entries.lookup qualifier) := by
  induction entries generalizing seen with
  | nil => simp [addDeclarations]
  | cons entry entries ih =>
      obtain ⟨other, uri⟩ := entry
      rw [addDeclarations]
      by_cases hother : qualifier = other
      · subst hother
        split
        next hsome => rw [ih, Option.or_of_isSome hsome, Option.or_of_isSome hsome]
        next => simp [ih, List.lookup_append]
      · rw [Keyed.lookup_cons_of_ne hother]
        split
        · exact ih
        · rw [ih, List.lookup_append, Keyed.lookup_cons_of_ne hother, List.lookup_nil,
            Option.or_none]

theorem nodup_addDeclarations (hseen : (seen.map (·.1)).Nodup) :
    ((addDeclarations seen entries).map (·.1)).Nodup := by
  induction entries generalizing seen with
  | nil => exact hseen
  | cons entry entries ih =>
      obtain ⟨other, uri⟩ := entry
      rw [addDeclarations]
      split
      · exact ih hseen
      next hnone =>
        apply ih
        have hnew : other ∉ seen.map (·.1) := by
          intro hmem
          obtain ⟨entry, hentry, rfl⟩ := List.mem_map.mp hmem
          exact hnone (List.lookup_isSome_iff.mpr ⟨entry, hentry, beq_self_eq_true _⟩)
        rw [List.map_append, List.map_singleton]
        exact List.nodup_append.mpr ⟨hseen, List.nodup_singleton _, fun a ha b hb => by
          obtain rfl := List.mem_singleton.mp hb
          exact fun hab => hnew (hab ▸ ha)⟩

end AddDeclarations

theorem lookup_flatMap_declarations (d : Document) (way : List NodeId)
    (qualifier : Option String) :
    (way.flatMap d.declarations).lookup qualifier = way.findSome? (d.declared? · qualifier) := by
  induction way with
  | nil => rfl
  | cons m way ih =>
      rw [List.flatMap_cons, List.lookup_append, lookup_declarations, ih, List.findSome?_cons]
      cases d.declared? m qualifier <;> rfl

/-- A qualifier stands for what the declarations in force give it. -/
theorem lookup_namespacesInScope :
    (d.namespacesInScope n).lookup qualifier = d.lookupNamespace n qualifier := by
  unfold namespacesInScope
  rw [lookup_addDeclarations, List.lookup_nil, Option.none_or]
  exact lookup_flatMap_declarations d (d.ancestry n) qualifier

end Markup.Document

/-- A qualifier is declared for a vocabulary when it stands for one. -/
theorem Vocabularies.lookup_declarations (v : Vocabularies) (d : Document) (n : NodeId)
    (key : String) : (v.declarations d n).lookup key =
      (d.lookupNamespace n (some key)).filter fun uri => v.covers ⟨some key, some uri⟩ := by
  have hlist : ∀ entries : List (Option String × String), (entries.map (·.1)).Nodup →
      (entries.filterMap fun entry => entry.1.bind fun qualifier =>
        if v.covers ⟨some qualifier, some entry.2⟩ then some (qualifier, entry.2)
        else none).lookup key =
      (entries.lookup (some key)).filter fun uri => v.covers ⟨some key, some uri⟩ := by
    intro entries hnodup
    induction entries with
    | nil => rfl
    | cons entry entries ih =>
        obtain ⟨qualifier, uri⟩ := entry
        obtain ⟨hnew, hrest⟩ := List.nodup_cons.mp hnodup
        rw [List.filterMap_cons, List.lookup_cons]
        by_cases hkey : qualifier = some key
        · subst hkey
          -- The qualifier is declared once, so that nothing further on is about it.
          have hnone : entries.lookup (some key) = none := by
            apply List.lookup_eq_none_iff.mpr
            intro entry hentry
            simp only [bne_iff_ne, ne_eq]
            intro heq
            exact hnew (List.mem_map.mpr ⟨entry, hentry, heq.symm⟩)
          by_cases hcovers : v.covers ⟨some key, some uri⟩
          · simp [hcovers, Option.filter]
          · simpa [hcovers, Option.filter, hnone] using ih hrest
        · have hother : (some key == qualifier) = false := by simpa using Ne.symm hkey
          rw [hother]
          refine Eq.trans ?_ (ih hrest)
          cases qualifier with
          | none => rfl
          | some other =>
              have hne : key ≠ other := fun heq => hkey (heq ▸ rfl)
              by_cases hcovers : v.covers ⟨some other, some uri⟩
              · simp [hcovers, Keyed.lookup_cons_of_ne hne]
              · simp [hcovers]
  rw [← lookup_namespacesInScope]
  exact hlist _ (nodup_addDeclarations List.nodup_nil)

end PageTemplate
