import PageTemplate.Proofs.Markup.Ancestry
import PageTemplate.Proofs.Markup.Omission

/-! # What qualifiers stand for after a tag is omitted

An element whose tag is omitted takes its declarations along. For the nodes that take its place a
qualifier stands for what it stood for exactly when it is declared again on the way to the node,
or the element did not change what it stands for.
-/

namespace PageTemplate.Markup.Document

variable {d d' : Document} {R : NodeId → Prop} {x p n m q c top : NodeId}
  {qualifier : Option String} {promoted : List NodeId}

/-- A node below `x` declares the qualifier, on the way down to `n` or at its end. -/
def DeclaredBetween (d : Document) (x n : NodeId) (qualifier : Option String) : Prop :=
  ∃ m, d.Below x m ∧ m ≠ x ∧ d.Below m n ∧ (d.declared? m qualifier).isSome

/-- The last node of a way declares the qualifier, or one before it does. -/
theorem declaredBetween_iff (hlinked : d.WellLinked) (hq : d.Below x q)
    (hchild : n ∈ d.children q) (hne : n ≠ x) :
    d.DeclaredBetween x n qualifier ↔
      (d.declared? n qualifier).isSome ∨ d.DeclaredBetween x q qualifier := by
  constructor
  · rintro ⟨m, hm, hmx, hmn, hdeclared⟩
    rcases hlinked.below_cases hmn with rfl | ⟨q', hq', hmq⟩
    · exact .inl hdeclared
    · obtain rfl := Option.some.inj ((hlinked.parent_eq hchild).symm.trans hq')
      exact .inr ⟨m, hm, hmx, hmq, hdeclared⟩
  · rintro (hdeclared | ⟨m, hm, hmx, hmq, hdeclared⟩)
    · exact ⟨n, hq.child hchild, hne, .refl, hdeclared⟩
    · exact ⟨m, hm, hmx, hmq.child hchild, hdeclared⟩

/-- Nothing is declared between an element and itself. -/
theorem not_declaredBetween_self (hlinked : d.WellLinked) (htop : d.parent top = none)
    (hx : d.Below top x) : ¬ d.DeclaredBetween x x qualifier := by
  rintro ⟨m, hm, hne, hback, -⟩
  rcases hlinked.below_cases hm with heq | ⟨q, hq, hxq⟩
  · exact hne heq
  · exact hlinked.not_below_parent htop (hx.trans hm) hq (hback.trans hxq)

namespace Replaced

variable (h : Replaced R p x (d.children x) d d') (hlinked : d.WellLinked)
  (hx : d.parent x = some p) (htop : d.parent top = none) (hlt : top < d.size)

include h

theorem declared?_eq (n : NodeId) (qualifier : Option String) :
    d'.declared? n qualifier = d.declared? n qualifier := by
  unfold declared? element?
  rw [h.kind_eq]

include hlinked hx htop hlt

/-- The node on top of the tree stays without a parent. -/
theorem parent_top : d'.parent top = none ∧ top < d'.size := by
  have htopx : top ≠ x := by
    rintro rfl
    rw [htop] at hx
    cases hx
  refine ⟨?_, ?_⟩
  · rw [h.parent_eq_of_ne hlinked htopx, htop, if_neg nofun]
  · rw [h.size_eq]
    exact hlt

/-- A qualifier stands for what the node declares it to be, or for what it stands for at the
parent that the node has now. -/
theorem lookupNamespace_eq (hn : d.Below top n) (hne : n ≠ x) (qualifier : Option String) :
    d'.lookupNamespace n qualifier = (d.declared? n qualifier).or
      ((if d.parent n = some x then some p else d.parent n).bind
        (d'.lookupNamespace · qualifier)) := by
  obtain ⟨htop', hlt'⟩ := h.parent_top hlinked hx htop hlt
  rw [h.linked.lookupNamespace_eq htop' hlt' (h.below_top hlinked hx htop hn hne),
    h.declared?_eq, h.parent_eq_of_ne hlinked hne]

/-- What lies outside of the element resolves its qualifiers as before. -/
theorem lookupNamespace_outside (hn : d.Below top n) (hout : ¬ d.Below x n) :
    d'.lookupNamespace n qualifier = d.lookupNamespace n qualifier := by
  have hne : ∀ m, ¬ d.Below x m → m ≠ x := by
    rintro m hm rfl
    exact hm .refl
  induction hn with
  | refl =>
      rw [h.lookupNamespace_eq hlinked hx htop hlt .refl (hne _ hout),
        hlinked.lookupNamespace_eq htop hlt .refl, htop, if_neg nofun]
      rfl
  | @child q n hq hchild ih =>
      have hqout : ¬ d.Below x q := fun hback => hout (hback.child hchild)
      rw [h.lookupNamespace_eq hlinked hx htop hlt (hq.child hchild) (hne n hout),
        hlinked.lookupNamespace_eq htop hlt (hq.child hchild), hlinked.parent_eq hchild,
        if_neg fun heq => hne q hqout (Option.some.inj heq)]
      exact congrArg (Option.or _) (ih hqout)

/-- Below the element, a qualifier that is declared again stands for what it stood for. Another
one stood for what the element declared it to be, or else for what it stands for around the
element; now it stands for that in any case. -/
theorem lookupNamespace_inside (hxtop : d.Below top x) (hn : d.Below x n) (hne : n ≠ x)
    (qualifier : Option String) :
    (d.DeclaredBetween x n qualifier ∧
      d'.lookupNamespace n qualifier = d.lookupNamespace n qualifier) ∨
    (¬ d.DeclaredBetween x n qualifier ∧
      d.lookupNamespace n qualifier =
        (d.declared? x qualifier).or (d.lookupNamespace p qualifier) ∧
      d'.lookupNamespace n qualifier = d.lookupNamespace p qualifier) := by
  induction hn with
  | refl => exact absurd rfl hne
  | @child q n hq hchild ih =>
      have hntop := (hxtop.trans hq).child hchild
      have hbefore := hlinked.lookupNamespace_eq htop hlt hntop qualifier
      have hafter := h.lookupNamespace_eq hlinked hx htop hlt hntop hne qualifier
      rw [declaredBetween_iff hlinked hq hchild hne]
      rw [hlinked.parent_eq hchild] at hbefore hafter
      cases hdeclared : d.declared? n qualifier with
      | some uri =>
          rw [hdeclared] at hbefore hafter
          exact .inl ⟨.inl rfl, hafter.trans hbefore.symm⟩
      | none =>
          rw [hdeclared] at hbefore hafter
          -- A child of `x` has another parent afterwards; further below nothing changes.
          by_cases hqx : q = x
          · subst hqx
            refine .inr ⟨?_, ?_, ?_⟩
            · simpa using not_declaredBetween_self hlinked htop hxtop
            · refine hbefore.trans ?_
              have hself := hlinked.lookupNamespace_eq htop hlt hxtop qualifier
              rw [hx] at hself
              exact hself
            · rw [if_pos rfl] at hafter
              exact hafter.trans (h.lookupNamespace_outside hlinked hx htop hlt
                (hlinked.below_parent htop hxtop hx) (hlinked.not_below_parent htop hxtop hx))
          · rw [if_neg fun heq => hqx (Option.some.inj heq)] at hafter
            have hq' := ih hqx
            have hbefore' : d.lookupNamespace n qualifier = d.lookupNamespace q qualifier := hbefore
            have hafter' : d'.lookupNamespace n qualifier = d'.lookupNamespace q qualifier := hafter
            rw [hbefore', hafter']
            simpa using hq'

end Replaced

/-- The qualifiers that an element uses, the default namespace among them. -/
def usedQualifiers (d : Document) (n : NodeId) : List (Option String) :=
  none :: (d.element? n).elim [] fun element =>
    element.name.qualifier :: element.attributes.map (·.name.qualifier)

/-- Which directives the attributes of an element are depends on the element and on what its
qualifiers stand for. -/
theorem attributeMatches_congr (helement : d'.element? n = d.element? n)
    (hsame : ∀ qualifier ∈ d.usedQualifiers n,
      d'.lookupNamespace n qualifier = d.lookupNamespace n qualifier)
    {attr : Attribute} (hattr : attr ∈ d.attributes n) (spec : AttributeSpec) :
    d'.attributeMatches n attr spec = d.attributeMatches n attr spec := by
  unfold attributes at hattr
  unfold usedQualifiers at hsame
  unfold attributeMatches inNamespace elementNamespace? namespaceOf
  rw [helement]
  cases hsome : d.element? n with
  | none =>
      rw [hsome] at hattr
      cases hattr
  | some element =>
      rw [hsome] at hattr hsame
      split
      · rfl
      split
      next qualifier hqualifier =>
        have hmem : some qualifier ∈ element.attributes.map (·.name.qualifier) :=
          List.mem_map.mpr ⟨attr, hattr, hqualifier⟩
        rw [hsame (some qualifier) (by simp [hmem])]
      next =>
        have hown := hsame element.name.qualifier (by simp)
        simp only [Option.map_some, hown]

/-- What a qualifier stands for at the node does not depend on `x`: it is declared again on the
way down from `x`, or stands for the same at `x` as at the parent of `x`. -/
def Indifferent (d : Document) (x n : NodeId) (qualifier : Option String) : Prop :=
  d.DeclaredBetween x n qualifier ∨ d.declared? x qualifier = none ∨
    d.declared? x qualifier = (d.parent x).bind (d.lookupNamespace · qualifier)

/-- An element without a parent cannot lose its tag, unless it has no children. -/
theorem promoted_eq_nil (hlinked : d.WellLinked) (hx : d.parent x = none)
    (homit : outcome (omitTag x) d = (.ok promoted, d')) : promoted = [] := by
  have hensures : Ensures (omitTag x) d (fun promoted _ => promoted = []) fun _ _ => True := by
    unfold omitTag
    refine Ensures.bind (Ensures.get ?_)
    cases d.children x with
    | nil => exact Ensures.bind (Ensures.bind (Ensures.pure (Ensures.modify (Ensures.pure rfl))))
    | cons c children =>
        have hfreed : (d.detach c).positionOf? x = none := by
          unfold positionOf?
          rw [hlinked.parent_detach, hx, ite_self]
          rfl
        unfold replace insertBefore position
        refine Ensures.bind (Ensures.bind (Ensures.bind (Ensures.bind (Ensures.modify ?_))))
        refine Ensures.bind (Ensures.bind (Ensures.get ?_))
        rw [hfreed]
        exact Ensures.throw trivial
  exact hensures.ok_of_outcome homit

/-- After a tag is omitted, the nodes that take the place of the element and what lies below them
resolve a qualifier as before exactly when the element does not matter for it. Attributes of nodes
for whose qualifiers it does not matter are the directives that they were. -/
theorem omitTag_keeps_qualifier_iff (hlinked : d.WellLinked) (hattached : d.isAttached x = true)
    (homit : outcome (omitTag x) d = (.ok promoted, d')) (hc : c ∈ promoted)
    (hn : d.Below c n) :
    (∀ qualifier, d'.lookupNamespace n qualifier = d.lookupNamespace n qualifier ↔
      d.Indifferent x n qualifier) ∧
    ((∀ qualifier ∈ d.usedQualifiers n, d.Indifferent x n qualifier) →
      ∀ attr ∈ d.attributes n, ∀ spec,
        d'.attributeMatches n attr spec = d.attributeMatches n attr spec) := by
  have hbelow : d.Below root x := below_of_mem_lineage hlinked (List.contains_iff_mem.mp hattached)
  obtain ⟨p, hx⟩ : ∃ p, d.parent x = some p := by
    cases hparent : d.parent x with
    | some p => exact ⟨p, rfl⟩
    | none =>
        rw [promoted_eq_nil hlinked hparent homit] at hc
        cases hc
  have hpbelow := hlinked.below_parent hlinked.parent_root hbelow hx
  have hregion := region_own hlinked ⟨root, hlinked.parent_root, hpbelow⟩ hx
  obtain ⟨rfl, hreplaced⟩ := (hregion.omitted (own_self d x) hx).ok_of_outcome homit
  -- An element does not lie below its own child.
  have hnx : n ≠ x := by
    rintro rfl
    exact hlinked.not_below_parent hlinked.parent_root (hbelow.child hc) (hlinked.parent_eq hc) hn
  have hinside : d.Below x n := .of_child hc hn
  have hpos : root < d.size := Nat.lt_of_le_of_lt (Nat.zero_le x) (hlinked.lt_of_parent hx).2
  have hiff : ∀ qualifier, d'.lookupNamespace n qualifier = d.lookupNamespace n qualifier ↔
      d.Indifferent x n qualifier := by
    intro qualifier
    unfold Indifferent
    rw [hx]
    rcases hreplaced.lookupNamespace_inside hlinked hx hlinked.parent_root hpos hbelow hinside hnx
        qualifier with ⟨hdeclared, hsame⟩ | ⟨hdeclared, hbefore, hafter⟩
    · simp [hdeclared, hsame]
    · rw [hbefore, hafter]
      cases d.declared? x qualifier with
      | none => simp
      | some uri => simp [hdeclared, eq_comm]
  refine ⟨hiff, fun hused attr hattr spec => ?_⟩
  refine attributeMatches_congr (congrArg NodeKind.element? (hreplaced.kind_eq n)) ?_ hattr spec
  exact fun qualifier hmem => (hiff qualifier).mpr (hused qualifier hmem)

section Examples

/-- A paragraph that declares a qualifier for directives, which its child uses. -/
def declaringPage (around : List Attribute) : Document where
  nodes := #[
    { kind := .root, children := [1] },
    { kind := .element { name := .parse "r", attributes := around }, parent := some 0,
      children := [2] },
    { kind := .element {
        name := .parse "p"
        attributes := [⟨.parse "xmlns:t", "http://xml.zope.org/namespaces/tal"⟩] },
      parent := some 1, children := [3] },
    { kind := .element {
        name := .parse "b", attributes := [⟨.parse "t:content", "string:x"⟩] },
      parent := some 2 }]

/-- What is declared around the paragraph as well is kept. -/
theorem omitTag_keeps_qualifier_of_declared_around :
    let d := declaringPage [⟨.parse "xmlns:t", "http://xml.zope.org/namespaces/tal"⟩]
    let d' := (outcome (omitTag 2) d).2
    d.WellLinked ∧ d.isAttached 2 = true ∧ outcome (omitTag 2) d = (.ok [3], d') ∧
      d'.lookupNamespace 3 (some "t") = some "http://xml.zope.org/namespaces/tal" ∧
      (∀ qualifier, d'.lookupNamespace 3 qualifier = d.lookupNamespace 3 qualifier ↔
        d.Indifferent 2 3 qualifier) ∧
      ∀ attr ∈ d.attributes 3, ∀ spec,
        d'.attributeMatches 3 attr spec = d.attributeMatches 3 attr spec := by
  intro d d'
  have hlinked : d.WellLinked := by decide +kernel
  have hattached : d.isAttached 2 = true := by decide +kernel
  have homit : outcome (omitTag 2) d = (.ok [3], d') := by rfl
  obtain ⟨hiff, hmatches⟩ :=
    omitTag_keeps_qualifier_iff hlinked hattached homit (List.mem_singleton_self 3) .refl
  refine ⟨hlinked, hattached, homit, by decide +kernel, hiff, hmatches fun qualifier hmem => ?_⟩
  have hqualifiers : d.usedQualifiers 3 = [none, none, some "t"] := by decide +kernel
  rw [hqualifiers] at hmem
  refine (hiff qualifier).mp ?_
  simp only [List.mem_cons, List.not_mem_nil, or_false] at hmem
  rcases hmem with rfl | rfl | rfl <;> decide +kernel

/-- What only the paragraph declares is lost, and with it the directive of the child. -/
theorem not_omitTag_keeps_qualifier_of_declaring :
    let d := declaringPage []
    let d' := (outcome (omitTag 2) d).2
    d.WellLinked ∧ d.isAttached 2 = true ∧ outcome (omitTag 2) d = (.ok [3], d') ∧
      some "t" ∈ d.usedQualifiers 3 ∧
      d'.lookupNamespace 3 (some "t") ≠ d.lookupNamespace 3 (some "t") ∧
      ∃ attr ∈ d.attributes 3, d.attributeMatches 3 attr ⟨.tal, "content"⟩ = true ∧
        d'.attributeMatches 3 attr ⟨.tal, "content"⟩ = false := by
  intro d d'
  exact ⟨by decide +kernel, by decide +kernel, by rfl, by decide +kernel, by decide +kernel,
    ⟨.parse "t:content", "string:x"⟩, by decide +kernel, by decide +kernel, by decide +kernel⟩

end Examples

end PageTemplate.Markup.Document
