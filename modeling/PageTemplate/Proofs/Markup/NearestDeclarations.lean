import PageTemplate.Proofs.Markup.Acyclicity
import PageTemplate.Proofs.Render.Declaring

/-! # The nearest declaration of a qualifier

What a qualifier stands for is looked up on the way up from a node, and the search ends at the first
declaration. The declarations in force are collected along the whole way, and a qualifier that was
seen before is passed over. Both come to the same: to the declaration on the nearest of the nodes
that lie at or above the node and declare the qualifier.
-/

namespace PageTemplate

/-- In a table without repeated keys, an entry is what its key is looked up as. -/
theorem Keyed.mem_iff_lookup {κ β : Type} [BEq κ] [LawfulBEq κ] {table : List (κ × β)}
    (hnodup : (table.map (·.1)).Nodup) {k : κ} {b : β} :
    (k, b) ∈ table ↔ table.lookup k = some b := by
  induction table with
  | nil => simp
  | cons entry table ih =>
      obtain ⟨other, c⟩ := entry
      obtain ⟨hnew, hrest⟩ := List.nodup_cons.mp hnodup
      by_cases hk : k = other
      · subst hk
        have hout : (k, b) ∉ table := fun hmem => hnew (List.mem_map.mpr ⟨(k, b), hmem, rfl⟩)
        simp [List.lookup_cons_self, hout, eq_comm]
      · rw [lookup_cons_of_ne hk, ← ih hrest]
        simp [hk]

namespace Markup.Document

variable {d : Document} {n m k p top : NodeId} {qualifier : Option String} {way : List NodeId}

/-! ## The way up -/

theorem Linked.below_of_mem_lineage (hlinked : d.Linked) {fuel : Nat}
    (h : m ∈ d.lineage fuel n) : d.Below m n :=
  below_of_mem_lineage_of_children (fun hp => (hlinked.mem_children_iff _ _).mpr hp) h

/-- Two nodes are not below each other. -/
theorem Linked.eq_of_below_below (hlinked : d.Linked) (hacyclic : d.Acyclic) (h : d.Below m n)
    (h' : d.Below n m) : m = n := by
  cases h with
  | refl => rfl
  | child hparent hchild =>
      exact absurd (h'.trans hparent)
        (hlinked.acyclic_iff.mp hacyclic _ _ (hlinked.parent_eq hchild))

/-- The way up comes to every node above, since it passes no node twice. -/
theorem Linked.mem_lineage (hlinked : d.Linked) (hacyclic : d.Acyclic) (h : d.Below m n)
    {fuel : Nat} {passed : List NodeId} (hnodup : (n :: passed).Nodup)
    (hlt : ∀ k ∈ n :: passed, k < d.size) (hpassed : ∀ k ∈ passed, d.Below n k)
    (hfuel : d.size ≤ fuel + passed.length) : m ∈ d.lineage fuel n := by
  induction fuel generalizing n passed with
  | zero =>
      have hlength := length_le_of_nodup hnodup hlt
      simp only [List.length_cons] at hlength
      omega
  | succ fuel ih =>
      unfold lineage
      cases h with
      | refl => exact List.mem_cons_self
      | @child p _ hmp hchild =>
          refine List.mem_cons_of_mem _ ?_
          have hparent := hlinked.parent_eq hchild
          rw [hparent]
          have hbelow : ∀ k ∈ n :: passed, d.Below p k :=
            List.forall_mem_cons.mpr
              ⟨.child .refl hchild, fun k hk => .of_child hchild (hpassed k hk)⟩
          have hnew : p ∉ n :: passed := by
            intro hmem
            refine hlinked.acyclic_iff.mp hacyclic n p hparent ?_
            rcases List.mem_cons.mp hmem with rfl | hmem
            · exact .refl
            · exact hpassed p hmem
          refine ih hmp (List.nodup_cons.mpr ⟨hnew, hnodup⟩) ?_ hbelow ?_
          · exact List.forall_mem_cons.mpr ⟨(hlinked.lt_of_parent hparent).1, hlt⟩
          · simp only [List.length_cons]
            omega

theorem Linked.mem_ancestry_iff (hlinked : d.Linked) (hacyclic : d.Acyclic) (hn : n < d.size) :
    m ∈ d.ancestry n ↔ d.Below m n := by
  refine ⟨hlinked.below_of_mem_lineage, fun h => ?_⟩
  exact hlinked.mem_lineage hacyclic h (List.nodup_singleton n) (by simpa using hn) nofun (by simp)

/-- A node on the way up lies below those that come after it. -/
theorem Linked.pairwise_lineage (hlinked : d.Linked) (fuel : Nat) (n : NodeId) :
    (d.lineage fuel n).Pairwise fun m k => d.Below k m := by
  induction fuel generalizing n with
  | zero => exact .nil
  | succ fuel ih =>
      unfold lineage
      cases hp : d.parent n with
      | none => exact List.pairwise_singleton _ _
      | some p =>
          refine List.pairwise_cons.mpr ⟨fun k hk => ?_, ih p⟩
          exact (hlinked.below_of_mem_lineage hk).child ((hlinked.mem_children_iff p n).mpr hp)

/-! ## The first declaration on a way -/

/-- Of the nodes on the way, `m` is the first that declares the qualifier. -/
def FirstDeclaring (d : Document) (way : List NodeId) (qualifier : Option String) (m : NodeId) :
    Prop :=
  ∃ front back, way = front ++ m :: back ∧ (d.declared? m qualifier).isSome ∧
    ∀ k ∈ front, d.declared? k qualifier = none

theorem FirstDeclaring.append (h : d.FirstDeclaring way qualifier m) (rest : List NodeId) :
    d.FirstDeclaring (way ++ rest) qualifier m := by
  obtain ⟨front, back, rfl, hdeclared, hfront⟩ := h
  exact ⟨front, back ++ rest, by simp, hdeclared, hfront⟩

/-- The nearest of the nodes at or above `n` that declare the qualifier is `m`. -/
structure NearestDeclaring (d : Document) (n : NodeId) (qualifier : Option String) (m : NodeId) :
    Prop where
  above : d.Below m n
  declares : (d.declared? m qualifier).isSome
  nearest : ∀ k, d.Below k n → (d.declared? k qualifier).isSome → d.Below k m

section

variable (hlinked : d.Linked) (hacyclic : d.Acyclic) (hn : n < d.size)

include hlinked hacyclic

theorem NearestDeclaring.unique (h : d.NearestDeclaring n qualifier m)
    (h' : d.NearestDeclaring n qualifier k) : m = k :=
  hlinked.eq_of_below_below hacyclic (h'.nearest m h.above h.declares)
    (h.nearest k h'.above h'.declares)

include hn

theorem FirstDeclaring.nearestDeclaring (h : d.FirstDeclaring (d.ancestry n) qualifier m) :
    d.NearestDeclaring n qualifier m := by
  obtain ⟨front, back, hway, hdeclared, hfront⟩ := h
  have hmem : m ∈ d.ancestry n := by rw [hway]; simp
  refine ⟨(hlinked.mem_ancestry_iff hacyclic hn).mp hmem, hdeclared, fun k hk hsome => ?_⟩
  have hkway := (hlinked.mem_ancestry_iff hacyclic hn).mpr hk
  have hpairwise : (front ++ m :: back).Pairwise fun m k => d.Below k m :=
    hway ▸ hlinked.pairwise_lineage d.size n
  rw [hway] at hkway
  rcases List.mem_append.mp hkway with hkfront | hkrest
  · rw [hfront k hkfront] at hsome
    cases hsome
  · rcases List.mem_cons.mp hkrest with rfl | hkback
    · exact .refl
    · exact (List.pairwise_cons.mp (List.pairwise_append.mp hpairwise).2.1).1 k hkback

/-- What is looked up is what the nearest declaration says. -/
theorem lookupNamespace_eq_some_iff {uri : String} :
    d.lookupNamespace n qualifier = some uri ↔
      ∃ m, d.NearestDeclaring n qualifier m ∧ d.declared? m qualifier = some uri := by
  have hfound : ∀ {uri}, d.lookupNamespace n qualifier = some uri →
      ∃ m, d.NearestDeclaring n qualifier m ∧ d.declared? m qualifier = some uri := by
    intro uri h
    obtain ⟨front, m, back, hway, hm, hfront⟩ := List.findSome?_eq_some_iff.mp h
    have hfirst : d.FirstDeclaring (d.ancestry n) qualifier m :=
      ⟨front, back, hway, Option.isSome_of_eq_some hm, hfront⟩
    exact ⟨m, hfirst.nearestDeclaring hlinked hacyclic hn, hm⟩
  refine ⟨hfound, fun ⟨m, hnearest, hm⟩ => ?_⟩
  have hmem := (hlinked.mem_ancestry_iff hacyclic hn).mpr hnearest.above
  have hsome : (d.lookupNamespace n qualifier).isSome :=
    List.findSome?_isSome_iff.mpr ⟨m, hmem, hnearest.declares⟩
  -- Something is found, and the declaration that it is found at is the nearest one.
  obtain ⟨other, hother⟩ := Option.isSome_iff_exists.mp hsome
  obtain ⟨k, hk, hkother⟩ := hfound hother
  obtain rfl := hk.unique hlinked hacyclic hnearest
  rw [hother, ← hkother, hm]

end

/-! ## Collecting along a way -/

theorem addDeclarations_append (seen first second : List (Option String × String)) :
    addDeclarations seen (first ++ second) =
      addDeclarations (addDeclarations seen first) second := by
  induction first generalizing seen with
  | nil => rfl
  | cons entry first ih =>
      obtain ⟨other, uri⟩ := entry
      rw [List.cons_append, addDeclarations, addDeclarations]
      split <;> exact ih _

/-- What is added to the list comes behind it, and only what is not listed is added. -/
theorem exists_addDeclarations_eq (seen entries : List (Option String × String)) :
    ∃ added, addDeclarations seen entries = seen ++ added ∧
      ∀ entry ∈ added, entry ∈ entries ∧ seen.lookup entry.1 = none := by
  induction entries generalizing seen with
  | nil => exact ⟨[], (List.append_nil _).symm, nofun⟩
  | cons entry entries ih =>
      obtain ⟨other, uri⟩ := entry
      rw [addDeclarations]
      split
      next =>
        obtain ⟨added, heq, hadded⟩ := ih seen
        refine ⟨added, heq, fun entry hentry => ?_⟩
        exact (hadded entry hentry).imp_left (List.mem_cons_of_mem _)
      next hnone =>
        obtain ⟨added, heq, hadded⟩ := ih (seen ++ [(other, uri)])
        refine ⟨(other, uri) :: added, by rw [heq, List.append_assoc]; rfl, ?_⟩
        have hnone' := Option.not_isSome_iff_eq_none.mp hnone
        refine List.forall_mem_cons.mpr ⟨⟨List.mem_cons_self, hnone'⟩, ?_⟩
        intro entry hentry
        obtain ⟨hmem, hlookup⟩ := hadded entry hentry
        rw [List.lookup_append, Option.or_eq_none_iff] at hlookup
        exact ⟨List.mem_cons_of_mem _ hmem, hlookup.1⟩

/-- What is collected along a way stands in the order of the nodes that declare it. -/
theorem pairwise_collected (nearer : NodeId → NodeId → Prop) (hself : ∀ m, nearer m m)
    (hway : way.Pairwise nearer) :
    (addDeclarations [] (way.flatMap d.declarations)).Pairwise fun entry entry' =>
      ∃ m m', d.FirstDeclaring way entry.1 m ∧ d.FirstDeclaring way entry'.1 m' ∧ nearer m m' := by
  -- The way is taken apart at its end: what the last node adds is declared nowhere before.
  induction way using List.reverseRecOn with
  | nil => exact .nil
  | append_singleton way last ih =>
      obtain ⟨hbefore, -, hlast⟩ := List.pairwise_append.mp hway
      rw [List.flatMap_append, addDeclarations_append, List.flatMap_singleton]
      obtain ⟨added, heq, hadded⟩ := exists_addDeclarations_eq
        (addDeclarations [] (way.flatMap d.declarations)) (d.declarations last)
      have hnew : ∀ entry ∈ added, d.FirstDeclaring (way ++ [last]) entry.1 last := by
        intro entry hentry
        obtain ⟨hmem, hlookup⟩ := hadded entry hentry
        rw [lookup_addDeclarations, List.lookup_nil, Option.none_or, lookup_flatMap_declarations,
          List.findSome?_eq_none_iff] at hlookup
        refine ⟨way, [], rfl, ?_, hlookup⟩
        rw [← lookup_declarations, List.lookup_isSome_iff]
        exact ⟨entry, hmem, beq_self_eq_true _⟩
      have hold : ∀ entry ∈ addDeclarations [] (way.flatMap d.declarations),
          ∃ m ∈ way, d.FirstDeclaring way entry.1 m := by
        intro entry hentry
        have hsome : ((addDeclarations [] (way.flatMap d.declarations)).lookup entry.1).isSome :=
          List.lookup_isSome_iff.mpr ⟨entry, hentry, beq_self_eq_true _⟩
        rw [lookup_addDeclarations, List.lookup_nil, Option.none_or,
          lookup_flatMap_declarations] at hsome
        obtain ⟨uri, huri⟩ := Option.isSome_iff_exists.mp hsome
        obtain ⟨front, m, back, hsplit, hm, hfront⟩ := List.findSome?_eq_some_iff.mp huri
        exact ⟨m, by simp [hsplit], front, back, hsplit, Option.isSome_of_eq_some hm, hfront⟩
      rw [heq]
      refine List.pairwise_append.mpr ⟨?_, ?_, fun entry hentry entry' hentry' => ?_⟩
      · refine (ih hbefore).imp ?_
        rintro entry entry' ⟨m, m', hm, hm', hnearer⟩
        exact ⟨m, m', hm.append _, hm'.append _, hnearer⟩
      · refine List.pairwise_of_forall_mem_list fun entry hentry entry' hentry' => ?_
        exact ⟨last, last, hnew entry hentry, hnew entry' hentry', hself last⟩
      · obtain ⟨m, hm, hfirst⟩ := hold entry hentry
        exact ⟨m, last, hfirst.append _, hnew entry' hentry',
          hlast m hm last (List.mem_singleton_self last)⟩

/-- The declarations in force list each qualifier at most once, and with it what it is looked up as.
That is what the nearest declaration at or above the node says, and qualifiers that are declared
nearer to the node come before those that are declared farther up. -/
theorem scope_lists_nearest (hlinked : d.Linked) (hacyclic : d.Acyclic) (hn : n < d.size) :
    ((d.namespacesInScope n).map (·.1)).Nodup ∧
    (∀ qualifier uri, (qualifier, uri) ∈ d.namespacesInScope n ↔
      d.lookupNamespace n qualifier = some uri) ∧
    (∀ qualifier uri, d.lookupNamespace n qualifier = some uri ↔
      ∃ m, d.NearestDeclaring n qualifier m ∧ d.declared? m qualifier = some uri) ∧
    (d.namespacesInScope n).Pairwise fun entry entry' =>
      ∃ m m', d.NearestDeclaring n entry.1 m ∧ d.NearestDeclaring n entry'.1 m' ∧
        d.Below m' m := by
  have hnodup : ((d.namespacesInScope n).map (·.1)).Nodup := nodup_addDeclarations List.nodup_nil
  refine ⟨hnodup, fun qualifier uri => ?_, fun qualifier uri => ?_, ?_⟩
  · rw [Keyed.mem_iff_lookup hnodup, lookup_namespacesInScope]
  · exact lookupNamespace_eq_some_iff hlinked hacyclic hn
  · have hway : (d.ancestry n).Pairwise fun m m' => d.Below m' m :=
      hlinked.pairwise_lineage d.size n
    refine (pairwise_collected (fun m m' => d.Below m' m) (fun _ => .refl) hway).imp ?_
    rintro entry entry' ⟨m, m', hm, hm', hbelow⟩
    exact ⟨m, m', hm.nearestDeclaring hlinked hacyclic hn,
      hm'.nearestDeclaring hlinked hacyclic hn, hbelow⟩

/-- An element that declares a default namespace and two qualifiers, an element in it that declares
the namespace and one of them again, and a qualifier of its own, and one in that. -/
def redeclaringPage : Document where
  nodes := #[{ children := [1] },
    { kind := .element {
        name := .parse "a"
        attributes := [⟨.parse "xmlns:x", "urn:x"⟩, ⟨.parse "xmlns", "urn:outer"⟩,
          ⟨.parse "xmlns:z", "urn:z"⟩] },
      parent := some 0, children := [2] },
    { kind := .element {
        name := .parse "b"
        attributes := [⟨.parse "xmlns", "urn:inner"⟩, ⟨.parse "xmlns:y", "urn:y"⟩,
          ⟨.parse "xmlns:x", "urn:again"⟩] },
      parent := some 1, children := [3] },
    { kind := .element (.named "c"), parent := some 2 }]

/-- The innermost element finds the four declarations in force, the outer one last. -/
theorem scope_lists_nearest_redeclared :
    let d := redeclaringPage
    d.Linked ∧ d.Acyclic ∧ 3 < d.size ∧
      d.namespacesInScope 3 = [(none, "urn:inner"), (some "y", "urn:y"), (some "x", "urn:again"),
        (some "z", "urn:z")] ∧
      d.lookupNamespace 3 (some "x") = some "urn:again" ∧
      d.lookupNamespace 3 (some "z") = some "urn:z" ∧
      (∃ m, d.NearestDeclaring 3 (some "z") m ∧ d.declared? m (some "z") = some "urn:z") ∧
      ∃ m m', d.NearestDeclaring 3 (some "x") m ∧ d.NearestDeclaring 3 (some "z") m' ∧
        d.Below m' m := by
  intro d
  have hlinked : d.Linked := (show d.WellLinked by decide +kernel).toLinked
  have hacyclic : d.Acyclic := acyclic_of_parents_before (by decide +kernel)
  have hlt : 3 < d.size := by decide
  obtain ⟨-, hviews, hnearest, horder⟩ := scope_lists_nearest hlinked hacyclic hlt
  have hscope : d.namespacesInScope 3 = [(none, "urn:inner"), (some "y", "urn:y"),
      (some "x", "urn:again"), (some "z", "urn:z")] := by decide +kernel
  have hz : d.lookupNamespace 3 (some "z") = some "urn:z" :=
    (hviews (some "z") "urn:z").mp (by rw [hscope]; decide)
  refine ⟨hlinked, hacyclic, hlt, hscope, ?_, hz, (hnearest _ _).mp hz, ?_⟩
  · exact (hviews (some "x") "urn:again").mp (by rw [hscope]; decide)
  · rw [hscope] at horder
    exact List.rel_of_pairwise_cons horder.tail.tail (List.mem_singleton_self _)

end Markup.Document

end PageTemplate
