import PageTemplate.Proofs.Markup.NodeTable
import PageTemplate.Proofs.Render.Assigning

/-! # The order of a list of attributes

Assignments to different names, none of which is a declaration, can be made in any order. One that
sets an attribute may bring a declaration that another one needs as well, but whichever comes first
brings it, and it is the same. So every order leaves the same attributes, by name.
-/

namespace PageTemplate

open Markup Document

namespace Attributes

variable {around : Option String → Option String} {registered : List (String × String)}
  {a b : Assignment} {assignments : List Assignment} {element : Element} {name : QualifiedName}
  {values : List String} {qualifier uri : String}

/-! ## Assignments that are made in turn -/

namespace Assignment

theorem added?_of_not_isDeclaration (h : name.isDeclaration = false) (values : List String) :
    a.added? around registered name values = none := by
  cases hadded : a.added? around registered name values with
  | none => rfl
  | some uri =>
      obtain ⟨qualifier, rfl, -⟩ := added?_eq_some hadded
      cases h

theorem added?_cons (value : String) (values : List String) :
    a.added? around registered name (value :: values) = none := by
  cases hadded : a.added? around registered name (value :: values) with
  | none => rfl
  | some uri =>
      obtain ⟨-, -, -, -, hnil, -⟩ := added?_eq_some hadded
      cases hnil

theorem added?_eq (hsets : a.sets = true) (hqualifier : a.key.qualifier = some qualifier)
    (haround : around (some qualifier) = none)
    (hregistered : registered.lookup qualifier = some uri) :
    a.added? around registered (.declaration (some qualifier)) [] = some uri := by
  unfold added?
  rw [QualifiedName.declares?_eq_some_iff.mpr rfl]
  simp [hsets, hqualifier, haround, hregistered]

/-- Assignments that add to the same attribute add the same. -/
theorem added?_unique {uri' : String} (ha : a.added? around registered name values = some uri)
    (hb : b.added? around registered name values = some uri') : uri' = uri := by
  obtain ⟨qualifier, rfl, -, -, -, -, hregistered⟩ := added?_eq_some ha
  obtain ⟨qualifier', hname, -, -, -, -, hregistered'⟩ := added?_eq_some hb
  cases hname
  exact Option.some.inj (hregistered'.symm.trans hregistered)

/-- Assignments to different attributes that are no declarations can change places. -/
theorem onValues_comm (hne : a.key ≠ b.key) (ha : a.key.isDeclaration = false)
    (hb : b.key.isDeclaration = false) :
    b.onValues around registered name (a.onValues around registered name values) =
      a.onValues around registered name (b.onValues around registered name values) := by
  by_cases hname : a.key = name
  · subst hname
    have hkept : ∀ values, b.onValues around registered a.key values = values := by
      intro values
      rw [onValues_of_ne (Ne.symm hne), added?_of_not_isDeclaration ha]
      rfl
    rw [hkept, hkept]
  by_cases hname' : b.key = name
  · subst hname'
    have hkept : ∀ values, a.onValues around registered b.key values = values := by
      intro values
      rw [onValues_of_ne hne, added?_of_not_isDeclaration hb]
      rfl
    rw [hkept, hkept]
  -- Either one may add what both need.
  · simp only [onValues_of_ne hname, onValues_of_ne hname']
    cases hadded : a.added? around registered name values with
    | none =>
        cases hadded' : b.added? around registered name values with
        | none => simp [hadded, hadded']
        | some uri => simp [added?_cons, hadded']
    | some uri =>
        cases hadded' : b.added? around registered name values with
        | none => simp [added?_cons, hadded]
        | some uri' => simp [added?_cons, added?_unique hadded hadded']

end Assignment

section

variable (hnodup : (assignments.map (·.name)).Nodup)
  (hplain : ∀ a ∈ assignments, a.key.isDeclaration = false)

include hnodup

theorem key_ne_of_ne (ha : a ∈ assignments) (hb : b ∈ assignments) (hne : a ≠ b) :
    a.key ≠ b.key := fun hkey =>
  hne (List.inj_on_of_nodup_map hnodup ha hb (QualifiedName.parse_injective hkey))

include hplain

theorem foldl_onValues_perm {assignments' : List Assignment} (h : assignments.Perm assignments')
    (values : List String) :
    assignments.foldl (fun values a => a.onValues around registered name values) values =
      assignments'.foldl (fun values a => a.onValues around registered name values) values := by
  apply h.foldl_eq'
  intro a ha b hb values
  by_cases heq : a = b
  · rw [heq]
  · exact Assignment.onValues_comm (key_ne_of_ne hnodup ha hb heq) (hplain a ha) (hplain b hb)

/-- What is assigned to a name is decided by the one assignment to it. -/
theorem values_applyAll_key (ha : a ∈ assignments) :
    (applyAll around registered assignments element).values a.key =
      a.onValues around registered a.key (element.values a.key) := by
  obtain ⟨before, after, rfl⟩ := List.append_of_mem ha
  have hkept : ∀ rest ⊆ before ++ a :: after, a ∉ rest → ∀ values,
      rest.foldl (fun values b => b.onValues around registered a.key values) values = values := by
    intro rest hsub hnot values
    induction rest with
    | nil => rfl
    | cons b rest ih =>
        obtain ⟨hb, hrest⟩ := List.cons_subset.mp hsub
        obtain ⟨hne, hnot⟩ := not_or.mp (mt List.mem_cons.mpr hnot)
        have hkey := key_ne_of_ne hnodup hb ha (Ne.symm hne)
        rw [List.foldl_cons, Assignment.onValues_of_ne hkey,
          Assignment.added?_of_not_isDeclaration (hplain a ha)]
        exact ih hrest hnot
  have hdistinct : (before ++ a :: after).Nodup := .of_map _ hnodup
  rw [List.nodup_middle, List.nodup_cons, List.mem_append, not_or] at hdistinct
  rw [values_applyAll, List.foldl_append, List.foldl_cons,
    hkept before (List.subset_append_left _ _) hdistinct.1.1,
    hkept after (List.subset_append_of_subset_right _ (List.subset_cons_self _ _)) hdistinct.1.2]

end

/-- A declaration that one of the assignments needs is there in the end. -/
theorem values_applyAll_declaration (hplain : ∀ a ∈ assignments, a.key.isDeclaration = false)
    (ha : a ∈ assignments) (hsets : a.sets = true) (hqualifier : a.key.qualifier = some qualifier)
    (hnone : element.values (.declaration (some qualifier)) = [])
    (haround : around (some qualifier) = none)
    (hregistered : registered.lookup qualifier = some uri) :
    (applyAll around registered assignments element).values (.declaration (some qualifier)) =
      [uri] := by
  have hne : ∀ b ∈ assignments, b.key ≠ .declaration (some qualifier) :=
    fun b hb => QualifiedName.ne_declaration (hplain b hb) _
  rw [values_applyAll, hnone]
  have hkept : ∀ rest ⊆ assignments, rest.foldl (fun values b =>
      b.onValues around registered (.declaration (some qualifier)) values) [uri] = [uri] := by
    intro rest hsub
    induction rest with
    | nil => rfl
    | cons b rest ih =>
        obtain ⟨hb, hrest⟩ := List.cons_subset.mp hsub
        rw [List.foldl_cons, Assignment.onValues_of_ne (hne b hb), Assignment.added?_cons]
        exact ih hrest
  have hadded := Assignment.added?_eq hsets hqualifier haround hregistered
  clear hplain
  induction assignments with
  | nil => cases ha
  | cons b assignments ih =>
      have hrest : assignments ⊆ b :: assignments := List.subset_cons_self b assignments
      rw [List.foldl_cons, Assignment.onValues_of_ne (hne b List.mem_cons_self)]
      cases hfirst : b.added? around registered (.declaration (some qualifier)) [] with
      | some uri' =>
          rw [Assignment.added?_unique hadded hfirst]
          exact hkept assignments hrest
      | none =>
          apply ih _ (fun b hb => hne b (hrest hb)) fun rest hsub =>
            hkept rest (List.Subset.trans hsub hrest)
          rcases List.mem_cons.mp ha with rfl | ha
          · rw [hadded] at hfirst
            cases hfirst
          · exact ha

/-- Attributes that are neither assigned nor added keep their values and their order. -/
theorem filter_applyAll {keeps : QualifiedName → Bool}
    (hplain : ∀ a ∈ assignments, a.key.isDeclaration = false)
    (hassigned : ∀ a ∈ assignments, a.value.cancels = false → keeps a.key = false)
    (hadded : ∀ a ∈ assignments, ∀ name,
      (a.added? around registered name (element.values name)).isSome → keeps name = false) :
    (applyAll around registered assignments element).attributes.filter (keeps ·.name) =
      element.attributes.filter (keeps ·.name) := by
  induction assignments generalizing element with
  | nil => rfl
  | cons a assignments ih =>
      have hrest : ∀ b ∈ assignments, b ∈ a :: assignments := fun b => List.mem_cons_of_mem a
      have hfirst : a ∈ a :: assignments := List.mem_cons_self
      have hnext : (applyAll around registered assignments
          (a.apply around registered element)).attributes.filter (keeps ·.name) =
            (a.apply around registered element).attributes.filter (keeps ·.name) := by
        apply ih (fun b hb => hplain b (hrest b hb)) fun b hb => hassigned b (hrest b hb)
        -- What is still to be added was to be added before.
        intro b hb name hsome
        obtain ⟨uri, huri⟩ := Option.isSome_iff_exists.mp hsome
        obtain ⟨qualifier, rfl, -, -, hnil, -⟩ := Assignment.added?_eq_some huri
        have hne : a.key ≠ .declaration (some qualifier) :=
          QualifiedName.ne_declaration (hplain a hfirst) _
        apply hadded b (hrest b hb)
        rw [hnil] at huri
        rw [Assignment.values_apply, Assignment.onValues_of_ne hne] at hnil
        cases hbrought : a.added? around registered (.declaration (some qualifier))
          (element.values (.declaration (some qualifier))) with
        | some uri' =>
            rw [hbrought] at hnil
            cases hnil
        | none =>
            rw [hbrought] at hnil
            have hnil : element.values (.declaration (some qualifier)) = [] := hnil
            rw [hnil, huri]
            rfl
      rw [applyAll, List.foldl_cons, ← applyAll, hnext]
      exact Assignment.filter_apply (hassigned a hfirst) (hadded a hfirst)

/-! ## The list of an element -/

variable {settings : Settings} {ctx : Context} {s : RenderState} {d d' : Document}
  {items : List String} {value : String}

/-- The assignments change the attribute of this name, or bring it along. -/
def Touches (settings : Settings) (ctx : Context) (d : Document) (assignments : List Assignment)
    (name : QualifiedName) : Prop :=
  ∃ a ∈ assignments, a.key = name ∧ a.value.cancels = false ∨
    a.sets = true ∧ ∃ qualifier, a.key.qualifier = some qualifier ∧
      name = .declaration (some qualifier) ∧
      d.lookupNamespace ctx.node (some qualifier) = none ∧
      (settings.vocabularies.extra.lookup qualifier).isSome

/-- The element has been given the attributes that the assignments say, and nothing else was done. -/
structure Reassigned (settings : Settings) (ctx : Context) (assignments : List Assignment)
    (d d' : Document) : Prop extends Reattributed ctx.node d d' where
  set : ∀ a ∈ assignments, a.sets = true → d'.attribute? ctx.node a.name = some a.value.text
  removed : ((d.attributes ctx.node).map (·.name)).Nodup →
    ∀ a ∈ assignments, a.value.isNull = true → d'.attribute? ctx.node a.name = none
  kept : ∀ a ∈ assignments, a.value.cancels = true →
    d'.attribute? ctx.node a.name = d.attribute? ctx.node a.name
  declared : ∀ a ∈ assignments, a.sets = true → ∀ qualifier uri,
    a.key.qualifier = some qualifier → d.lookupNamespace ctx.node (some qualifier) = none →
    settings.vocabularies.extra.lookup qualifier = some uri →
      d'.attribute? ctx.node ("xmlns:" ++ qualifier) = some uri
  others : ∀ keeps : QualifiedName → Bool,
    (∀ name, keeps name = true → ¬ Touches settings ctx d assignments name) →
      (d'.attributes ctx.node).filter (keeps ·.name) =
        (d.attributes ctx.node).filter (keeps ·.name)

theorem attribute?_eq_values {x : NodeId} (h : d.element? x = some element) (raw : String) :
    d.attribute? x raw = (element.values (.parse raw)).head? := by
  rw [attribute?, h, Option.bind_some, Element.attribute?_eq_head?]

/-- An element that has each name once has no other value of it than the first. -/
theorem tail_values_of_nodup (h : (element.attributes.map (·.name)).Nodup)
    (name : QualifiedName) : (element.values name).tail = [] := by
  have hcount := List.nodup_iff_count_le_one.mp h name
  rw [List.count_eq_countP, List.countP_map, List.countP_eq_length_filter] at hcount
  apply List.length_eq_zero_iff.mp
  rw [List.length_tail, Element.values, List.length_map]
  exact Nat.sub_eq_zero_of_le hcount

theorem Reassigned.of_mem_iff {assignments' : List Assignment}
    (h : Reassigned settings ctx assignments d d') (hmem : ∀ a, a ∈ assignments ↔ a ∈ assignments') :
    Reassigned settings ctx assignments' d d' where
  toReattributed := h.toReattributed
  set a ha := h.set a ((hmem a).mpr ha)
  removed honce a ha := h.removed honce a ((hmem a).mpr ha)
  kept a ha := h.kept a ((hmem a).mpr ha)
  declared a ha := h.declared a ((hmem a).mpr ha)
  others keeps hkeeps := h.others keeps fun name hname htouches => hkeeps name hname <| by
    obtain ⟨a, ha, htouches⟩ := htouches
    exact ⟨a, (hmem a).mp ha, htouches⟩

theorem reassigned_of_applyAll (hground : d.Grounded ctx.node)
    (helement : d.element? ctx.node = some element)
    (hnodup : (assignments.map (·.name)).Nodup)
    (hplain : ∀ a ∈ assignments, a.key.isDeclaration = false)
    (hchanged : Reattributed ctx.node d d')
    (hmade : d'.element? ctx.node = some (applyAll (d.namespaceAround ctx.node)
      settings.vocabularies.extra assignments element)) :
    Reassigned settings ctx assignments d d' := by
  have hunknown : ∀ {qualifier}, d.lookupNamespace ctx.node (some qualifier) = none ↔
      element.values (.declaration (some qualifier)) = [] ∧
        d.namespaceAround ctx.node (some qualifier) = none := by
    intro qualifier
    rw [hground.lookupNamespace_eq_around helement, Option.or_eq_none_iff,
      List.head?_eq_none_iff]
  have hattribute : ∀ a ∈ assignments, d'.attribute? ctx.node a.name =
      (a.onValues (d.namespaceAround ctx.node) settings.vocabularies.extra a.key
        (element.values a.key)).head? := by
    intro a ha
    rw [attribute?_eq_values hmade, ← values_applyAll_key hnodup hplain ha]
    rfl
  have hattributes : d.attributes ctx.node = element.attributes := attributes_of_element? helement
  have hattributes' : d'.attributes ctx.node = _ := attributes_of_element? hmade
  refine ⟨hchanged, fun a ha hsets => ?_, fun honce a ha hnull => ?_, fun a ha hcancels => ?_,
    fun a ha hsets qualifier uri hqualifier hnone hregistered => ?_, fun keeps hkeeps => ?_⟩
  · obtain ⟨hcancels, hnull⟩ : a.value.cancels = false ∧ a.value.isNull = false := by
      simpa [Assignment.sets] using hsets
    rw [hattribute a ha]
    simp [Assignment.onValues, hcancels, hnull]
  · have hcancels : a.value.cancels = false := by
      cases hvalue : a.value <;> simp_all [Value.isNull, Value.cancels]
    rw [hattribute a ha]
    rw [hattributes] at honce
    simp [Assignment.onValues, hcancels, hnull, tail_values_of_nodup honce]
  · rw [hattribute a ha, attribute?_eq_values helement]
    simp [Assignment.onValues, hcancels, Assignment.key]
  · obtain ⟨hnone, haround⟩ := hunknown.mp hnone
    rw [attribute?_eq_values hmade, QualifiedName.parse_declaration_of_parse hqualifier,
      values_applyAll_declaration hplain ha hsets hqualifier hnone haround hregistered]
    rfl
  · rw [hattributes, hattributes']
    have hfalse : ∀ {name}, Touches settings ctx d assignments name → keeps name = false :=
      fun htouches => Bool.eq_false_iff.mpr fun hkeep => hkeeps _ hkeep htouches
    apply filter_applyAll hplain
    · exact fun a ha hcancels => hfalse ⟨a, ha, .inl ⟨rfl, hcancels⟩⟩
    · intro a ha name hsome
      obtain ⟨uri, huri⟩ := Option.isSome_iff_exists.mp hsome
      obtain ⟨qualifier, rfl, hsets, hqualifier, hnil, hnone, hregistered⟩ :=
        Assignment.added?_eq_some huri
      exact hfalse ⟨a, ha, .inr ⟨hsets, qualifier, hqualifier, rfl, hunknown.mpr ⟨hnil, hnone⟩,
        Option.isSome_iff_exists.mpr ⟨uri, hregistered⟩⟩⟩

/-! ## Carrying out the list in any order -/

/-- A list of which each item is an assignment is carried out to its end. -/
theorem carriedOut_eq_filterMap {globals : Globals}
    (h : ∀ item ∈ items, (assignment? settings ctx globals item).isSome) :
    carriedOut settings ctx globals items = items.filterMap (assignment? settings ctx globals) := by
  induction items with
  | nil => rfl
  | cons item items ih =>
      obtain ⟨a, ha⟩ := Option.isSome_iff_exists.mp (h item List.mem_cons_self)
      unfold carriedOut
      rw [ha, List.filterMap_cons_some ha]
      exact congrArg _ (ih fun item hitem => h item (List.mem_cons_of_mem _ hitem))

/-- What the attributes of an element are assigned to does not depend on the order of the list. That a
null takes its attribute away holds where the names of the attributes are distinct: of several with
one name only the first is removed. -/
theorem handle_reassigns (hground : s.document.Grounded ctx.node)
    (helement : s.document.isElement ctx.node = true) (hcache : s.cache.IsFaithful)
    (hdirective : ctx.directive? s.document settings.vocabularies.attributes = some value)
    (hassigned : (Directive.splitItems value).map (assignment? settings ctx s.globals) =
      assignments.map some)
    (hnodup : (assignments.map (·.name)).Nodup)
    (hplain : ∀ a ∈ assignments, a.key.isDeclaration = false) :
    ∃ after : String → Option String,
      (∃ d' cache,
        outcome (handle settings ctx) s = (.ok (.keep ctx), { s with document := d', cache }) ∧
        Reassigned settings ctx assignments s.document d' ∧
        ∀ name, d'.attribute? ctx.node name = after name) ∧
      ∀ items : List String, items.Perm (Directive.splitItems value) → ∃ d' cache,
        outcome (items.forM (assignItem settings ctx)) s =
          (.ok (), { s with document := d', cache }) ∧
        Reassigned settings ctx assignments s.document d' ∧
        ∀ name, d'.attribute? ctx.node name = after name := by
  obtain ⟨element, helement⟩ := Option.isSome_iff_exists.mp helement
  have hlist : (Directive.splitItems value).filterMap (assignment? settings ctx s.globals) =
      assignments := by
    have h := congrArg (List.filterMap id) hassigned
    simpa [List.filterMap_map] using h
  have hisSome : ∀ item ∈ Directive.splitItems value,
      (assignment? settings ctx s.globals item).isSome := by
    intro item hitem
    have hmem := hassigned ▸ List.mem_map_of_mem hitem
    obtain ⟨a, -, ha⟩ := List.mem_map.mp hmem
    rw [← ha]
    rfl
  have hall : ∀ items : List String, items.Perm (Directive.splitItems value) → ∃ d' cache,
      outcome (items.forM (assignItem settings ctx)) s =
        (.ok (), { s with document := d', cache }) ∧
      Reassigned settings ctx assignments s.document d' ∧
      ∀ name, d'.attribute? ctx.node name =
        ((applyAll (s.document.namespaceAround ctx.node) settings.vocabularies.extra assignments
          element).values (.parse name)).head? := by
    intro items hperm
    have hisSome : ∀ item ∈ items, (assignment? settings ctx s.globals item).isSome :=
      fun item hitem => hisSome item (hperm.mem_iff.mp hitem)
    obtain ⟨result, d', cache, hitems, -, hchanged, hmade, hiff⟩ :=
      outcome_assignItems hground (.refl hground.linked) helement hcache items
    obtain rfl := hiff.mpr hisSome
    rw [carriedOut_eq_filterMap hisSome] at hmade
    have hperm' : (items.filterMap (assignment? settings ctx s.globals)).Perm assignments :=
      hlist ▸ hperm.filterMap _
    have hdone : ∀ a, a ∈ items.filterMap (assignment? settings ctx s.globals) ↔ a ∈ assignments :=
      fun _ => hperm'.mem_iff
    have hreassigned : Reassigned settings ctx assignments s.document d' :=
      (reassigned_of_applyAll hground helement ((hperm'.map _).nodup_iff.mpr hnodup)
        (fun a ha => hplain a ((hdone a).mp ha)) hchanged hmade).of_mem_iff hdone
    refine ⟨d', cache, hitems, hreassigned, fun name => ?_⟩
    rw [attribute?_eq_values hmade, values_applyAll, values_applyAll,
      foldl_onValues_perm hnodup hplain hperm'.symm]
  refine ⟨_, ?_, hall⟩
  obtain ⟨d', cache, hitems, hreassigned⟩ := hall _ (.refl _)
  refine ⟨d', cache, ?_, hreassigned⟩
  unfold handle
  rw [outcome_bind_ok (Rendering.outcome_document s), hdirective]
  dsimp only
  rw [outcome_bind_ok hitems]
  rfl

/-- A link whose list sets, removes and keeps attributes, and needs one declaration twice. -/
def linkPage : Document where
  nodes := #[
    { kind := .root, children := [1] },
    { kind := .element { name := .parse "r" }, parent := some 0, children := [2] },
    { kind := .element {
        name := .parse "a"
        attributes := [⟨.parse "href", "#"⟩, ⟨.parse "title", "t"⟩, ⟨.parse "class", "c"⟩,
          ⟨.parse "tal:attributes",
            "x:href string:u; title nothing; class default; href string:v; x:role string:w"⟩] }
      parent := some 1 }]

/-- The assignments of a list, when their names are known. -/
theorem exists_assignments_of_names {globals : Globals} {names : List String}
    (h : (items.map fun item => (assignment? settings ctx globals item).map (·.name)) =
      names.map some) : ∃ assignments : List Assignment,
      items.map (assignment? settings ctx globals) = assignments.map some ∧
      assignments.map (·.name) = names := by
  induction items generalizing names with
  | nil =>
      obtain rfl := List.map_eq_nil_iff.mp h.symm
      exact ⟨[], rfl, rfl⟩
  | cons item items ih =>
      cases names with
      | nil => cases h
      | cons name names =>
          obtain ⟨hfirst, hrest⟩ := List.cons.inj h
          obtain ⟨a, ha, rfl⟩ := Option.map_eq_some_iff.mp hfirst
          obtain ⟨assignments, hassigned, rfl⟩ := ih hrest
          exact ⟨a :: assignments, by rw [List.map_cons, ha, hassigned, List.map_cons], rfl⟩

theorem handle_reassigns_linkPage :
    let s : RenderState := { document := linkPage, globals := { root := .null } }
    let settings : Settings := { vocabularies := { extra := [("x", "urn:x")] } }
    let ctx := Context.ofNode s.document 2 {}
    s.document.Grounded ctx.node ∧ s.document.isElement ctx.node = true ∧ s.cache.IsFaithful ∧
      ∃ value assignments,
        ctx.directive? s.document settings.vocabularies.attributes = some value ∧
        (Directive.splitItems value).map (assignment? settings ctx s.globals) =
          assignments.map some ∧
        assignments.map (·.name) = ["x:href", "title", "class", "href", "x:role"] ∧
        (assignments.map (·.name)).Nodup ∧ (∀ a ∈ assignments, a.key.isDeclaration = false) ∧
        ∃ after : String → Option String,
          (∃ d' cache,
            outcome (handle settings ctx) s = (.ok (.keep ctx), { s with document := d', cache }) ∧
            Reassigned settings ctx assignments s.document d' ∧
            ∀ name, d'.attribute? ctx.node name = after name) ∧
          ∀ items : List String, items.Perm (Directive.splitItems value) → ∃ d' cache,
            outcome (items.forM (assignItem settings ctx)) s =
              (.ok (), { s with document := d', cache }) ∧
            Reassigned settings ctx assignments s.document d' ∧
            ∀ name, d'.attribute? ctx.node name = after name := by
  intro s settings ctx
  have hlinked : s.document.WellLinked := by decide +kernel
  have hattached : s.document.isAttached ctx.node = true := by decide +kernel
  have hlt : ctx.node < s.document.size := by decide
  have hground : s.document.Grounded ctx.node := .of_isAttached hlinked hlt hattached
  have helement : s.document.isElement ctx.node = true := by decide +kernel
  have hcache : s.cache.IsFaithful := ExpressionCache.isFaithful_empty
  obtain ⟨value, hdirective, hnames⟩ := Option.map_eq_some_iff.mp (by decide +kernel :
    (ctx.directive? s.document settings.vocabularies.attributes).map (fun value =>
      (Directive.splitItems value).map fun item =>
        (assignment? settings ctx s.globals item).map (·.name)) =
      some (["x:href", "title", "class", "href", "x:role"].map some))
  obtain ⟨assignments, hassigned, hnames⟩ : ∃ assignments : List Assignment,
      (Directive.splitItems value).map (assignment? settings ctx s.globals) =
        assignments.map some ∧
      assignments.map (·.name) = ["x:href", "title", "class", "href", "x:role"] :=
    exists_assignments_of_names hnames
  have hnodup : (assignments.map (·.name)).Nodup := hnames ▸ by decide
  have hplain : ∀ a ∈ assignments, a.key.isDeclaration = false := by
    intro a ha
    have hplain : ∀ name ∈ ["x:href", "title", "class", "href", "x:role"],
        (QualifiedName.parse name).isDeclaration = false := by decide +kernel
    exact hplain a.name (hnames ▸ List.mem_map_of_mem ha)
  exact ⟨hground, helement, hcache, value, assignments, hdirective, hassigned, hnames, hnodup,
    hplain, handle_reassigns hground helement hcache hdirective hassigned hnodup hplain⟩

end Attributes

end PageTemplate
