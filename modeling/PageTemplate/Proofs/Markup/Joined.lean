import PageTemplate.Proofs.Markup.Origin

/-! # Trees as they read back

Texts that stand next to each other cannot be told from one text in markup, an empty text cannot
be told from none, and what stands below a node that is neither an element nor the document node
is not written. A tree is joined when it has none of these; whatever was read is joined.
-/

namespace PageTemplate.Markup

/-- The kinds of node below which others are written. -/
def NodeKind.isContainer : NodeKind → Bool
  | .root | .element _ => true
  | _ => false

namespace Tree

/-- Two neighbours. Text runs into the text behind it. -/
def meet : Tree → Tree → List Tree
  | .node (.text first) below, .node (.text second) below' =>
    [.node (.text (first ++ second)) (below ++ below')]
  | first, second => [first, second]

/-- Two stretches of trees, one behind the other. -/
def glue (front back : List Tree) : List Tree :=
  match front.getLast?, back with
  | some last, first :: rest => front.dropLast ++ last.meet first ++ rest
  | _, back => front ++ back

mutual
/-- The tree as it reads back. -/
def joined : Tree → Tree
  | .node kind children => .node kind (if kind.isContainer then joinedAll children else [])
/-- The trees as they read back when they stand next to each other. -/
def joinedAll : List Tree → List Tree
  | [] => []
  | tree :: trees => glue (if tree.kind = .text "" then [] else [tree.joined]) (joinedAll trees)
end

/-- What is left of a tree that stands alone. -/
def lone (tree : Tree) : List Tree := if tree.kind = .text "" then [] else [tree.joined]

mutual
/-- No text of the tree is empty or stands behind another, and all that is in the tree is
written. -/
def IsJoined : Tree → Prop
  | .node kind children =>
    kind ≠ .text "" ∧ (kind.isContainer = false → children = []) ∧ AreJoined children
/-- Every tree is joined, and no two texts stand next to each other. -/
def AreJoined : List Tree → Prop
  | [] => True
  | tree :: trees =>
    tree.IsJoined ∧ (tree.kind.isText → ∀ next ∈ trees.head?, next.kind.isText = false) ∧
      AreJoined trees
end

variable {first second third : Tree} {trees : List Tree}

theorem text_or_not (tree : Tree) :
    (∃ content below, tree = .node (.text content) below) ∨ tree.kind.isText = false := by
  obtain ⟨kind, below⟩ := tree
  cases kind <;> first | exact .inl ⟨_, _, rfl⟩ | exact .inr rfl

@[simp] theorem meet_text (first second : String) (below below' : List Tree) :
    (node (.text first) below).meet (node (.text second) below') =
      [node (.text (first ++ second)) (below ++ below')] := by
  unfold meet
  rfl

theorem meet_of_not_text_left (h : first.kind.isText = false) (second : Tree) :
    first.meet second = [first, second] := by
  unfold meet
  split
  · cases h
  · rfl

theorem meet_of_not_text_right (h : second.kind.isText = false) (first : Tree) :
    first.meet second = [first, second] := by
  unfold meet
  split
  · cases h
  · rfl

@[simp] theorem glue_nil_left (trees : List Tree) : glue [] trees = trees := rfl

@[simp] theorem glue_nil_right (trees : List Tree) : glue trees [] = trees := by
  unfold glue
  split
  next heq => cases heq
  next => simp

@[simp] theorem glue_append_cons (front : List Tree) (last first : Tree) (rest : List Tree) :
    glue (front ++ [last]) (first :: rest) = front ++ last.meet first ++ rest := by
  unfold glue
  simp

theorem glue_singleton_cons (last first : Tree) (rest : List Tree) :
    glue [last] (first :: rest) = last.meet first ++ rest :=
  glue_append_cons [] last first rest

theorem glue_singleton_of_not_text {tree : Tree} (h : tree.kind.isText = false)
    (front : List Tree) : glue front [tree] = front ++ [tree] := by
  rcases List.eq_nil_or_concat' front with rfl | ⟨front, last, rfl⟩
  · rfl
  · rw [glue_append_cons, meet_of_not_text_right h]
    simp

/-- No node is lost where stretches meet, apart from the texts that become one. -/
theorem mem_kindsAll_glue {kind : NodeKind} (hkind : kind.isText = false) (front back : List Tree) :
    kind ∈ kindsAll (glue front back) ↔ kind ∈ kindsAll front ∨ kind ∈ kindsAll back := by
  have hne : ∀ content, kind ≠ .text content := by
    rintro content rfl
    cases hkind
  rcases List.eq_nil_or_concat' front with rfl | ⟨front, last, rfl⟩
  · simp [kindsAll]
  · cases back with
    | nil => simp [kindsAll]
    | cons first rest =>
        rw [glue_append_cons]
        rcases last.text_or_not with ⟨existing, below, rfl⟩ | hlast
        · rcases first.text_or_not with ⟨content, below', rfl⟩ | hfirst
          · simp [kindsAll, kinds, hne, or_assoc]
          · simp [meet_of_not_text_right hfirst, kindsAll, or_assoc]
        · simp [meet_of_not_text_left hlast, kindsAll, or_assoc]

/-- Three stretches can be put together from either end. -/
theorem glue_assoc (front : List Tree) (tree : Tree) (back : List Tree) :
    glue (glue front [tree]) back = glue front (glue [tree] back) := by
  rcases List.eq_nil_or_concat' front with rfl | ⟨front, last, rfl⟩
  · rfl
  · cases back with
    | nil => simp
    | cons first rest =>
        have hkeep := glue_append_cons (front ++ [last]) tree first rest
        rw [List.append_assoc, List.singleton_append] at hkeep
        rw [glue_append_cons, glue_singleton_cons, List.append_nil]
        rcases tree.text_or_not with ⟨content, below, rfl⟩ | htree
        · rcases first.text_or_not with ⟨content', below', rfl⟩ | hfirst
          · rcases last.text_or_not with ⟨existing, inner, rfl⟩ | hlast
            · simp [String.append_assoc]
            · rw [meet_of_not_text_left hlast, hkeep]
              simp [meet_of_not_text_left hlast]
          · rcases last.text_or_not with ⟨existing, inner, rfl⟩ | hlast
            · simp [meet_of_not_text_right hfirst]
            · rw [meet_of_not_text_left hlast, hkeep]
              simp [meet_of_not_text_right hfirst, meet_of_not_text_left hlast]
        · rw [meet_of_not_text_right htree, hkeep, meet_of_not_text_left htree]
          simp [meet_of_not_text_right htree]

mutual
theorem IsJoined.joined_eq {tree : Tree} (h : tree.IsJoined) : tree.joined = tree := by
  match tree with
  | .node kind children =>
      unfold IsJoined at h
      obtain ⟨-, hleaf, hchildren⟩ := h
      unfold joined
      split
      · rw [hchildren.joinedAll_eq]
      next hcontainer => rw [hleaf (Bool.eq_false_iff.mpr hcontainer)]
theorem AreJoined.joinedAll_eq {trees : List Tree} (h : AreJoined trees) :
    joinedAll trees = trees := by
  match trees with
  | [] => rfl
  | tree :: trees =>
      unfold AreJoined at h
      obtain ⟨htree, hnext, htrees⟩ := h
      unfold joinedAll
      rw [htree.joined_eq, htrees.joinedAll_eq]
      have hkind : tree.kind ≠ .text "" := by
        obtain ⟨kind, children⟩ := tree
        unfold IsJoined at htree
        exact htree.1
      rw [if_neg hkind]
      cases trees with
      | nil => rfl
      | cons next trees =>
          rw [glue_singleton_cons]
          cases hfirst : tree.kind.isText with
          | false =>
              rw [meet_of_not_text_left hfirst]
              rfl
          | true =>
              rw [meet_of_not_text_right (hnext hfirst next rfl)]
              rfl
end

theorem areJoined_append_singleton {trees : List Tree} {tree : Tree} :
    AreJoined (trees ++ [tree]) ↔ AreJoined trees ∧ tree.IsJoined ∧
      (tree.kind.isText → ∀ last ∈ trees.getLast?, last.kind.isText = false) := by
  induction trees with
  | nil => simp [AreJoined]
  | cons first trees ih =>
      rw [List.cons_append, AreJoined, AreJoined, ih]
      cases trees with
      | nil =>
          cases hfirst : first.kind.isText <;> cases htree : tree.kind.isText <;>
            simp [AreJoined, hfirst, htree]
      | cons second trees =>
          simp only [List.cons_append, List.head?_cons, List.getLast?_cons_cons]
          tauto

end Tree

namespace Draft

/-- What has been read so far is joined, at every level. -/
structure IsJoined (draft : Draft) : Prop where
  children : Tree.AreJoined draft.children
  before : ∀ innermost ∈ draft.opened, Tree.AreJoined innermost.before

variable {draft draft' : Draft}

theorem IsJoined.addLeaf (h : draft.IsJoined) {kind : NodeKind} (hkind : kind.isText = false) :
    (draft.addLeaf kind).IsJoined := by
  have hleaf : (Tree.node kind []).IsJoined := by
    refine ⟨?_, fun _ => rfl, trivial⟩
    rintro rfl
    cases hkind
  refine ⟨Tree.areJoined_append_singleton.mpr ⟨h.children, hleaf, fun htext => ?_⟩, h.before⟩
  rw [Tree.kind, hkind] at htext
  cases htext

theorem IsJoined.addText (h : draft.IsJoined) {content : String} (hcontent : content ≠ "") :
    (draft.addText content).IsJoined := by
  rcases draft.text_or_not with ⟨front, existing, below, hlast⟩ | hlast
  · obtain ⟨hfront, ⟨-, hbelow, hbelowJoined⟩, hnext⟩ :=
      Tree.areJoined_append_singleton.mp (hlast ▸ h.children)
    have htext : (Tree.node (.text (existing ++ content)) below).IsJoined := by
      refine ⟨?_, hbelow, hbelowJoined⟩
      simp [hcontent]
    rw [addText_of_text hlast]
    exact ⟨Tree.areJoined_append_singleton.mpr ⟨hfront, htext, hnext⟩, h.before⟩
  · have htext : (Tree.node (.text content) []).IsJoined := by
      refine ⟨?_, fun _ => rfl, trivial⟩
      simp [hcontent]
    rw [addText_of_not_text hlast]
    refine ⟨Tree.areJoined_append_singleton.mpr ⟨h.children, htext, fun _ last hmem => ?_⟩,
      h.before⟩
    obtain ⟨kind, below⟩ := last
    cases kind with
    | text existing => exact absurd hmem (hlast existing below)
    | _ => rfl

theorem IsJoined.grows (hgrows : draft.Grows draft') (h : draft.IsJoined) : draft'.IsJoined := by
  cases hgrows with
  | text content hcontent => exact h.addText hcontent
  | leaf kind _ hkind => exact h.addLeaf hkind
  | start name element =>
      refine ⟨trivial, fun innermost hmem => ?_⟩
      rcases List.mem_cons.mp hmem with rfl | hmem
      · exact h.children
      · exact h.before innermost hmem
  | finish innermost outer hopened =>
      have hbefore := hopened ▸ h.before
      have helement : (Tree.node (.element innermost.element) draft.children).IsJoined :=
        ⟨nofun, nofun, h.children⟩
      exact ⟨Tree.areJoined_append_singleton.mpr
          ⟨hbefore innermost List.mem_cons_self, helement, nofun⟩,
        fun other hmem => hbefore other (List.mem_cons_of_mem _ hmem)⟩

/-! ## Trees behind what was read -/

/-- Adds trees behind what was read. -/
def addAll (trees : List Tree) (draft : Draft) : Draft :=
  { draft with children := Tree.glue draft.children trees }

theorem addText_eq_addAll (content : String) (draft : Draft) :
    draft.addText content = draft.addAll [.node (.text content) []] := by
  rcases draft.text_or_not with ⟨front, existing, below, hlast⟩ | hlast
  · rw [addText_of_text hlast, addAll, hlast, Tree.glue_append_cons]
    simp
  · rw [addText_of_not_text hlast, addAll, addLeaf]
    rcases List.eq_nil_or_concat' draft.children with hnil | ⟨front, last, heq⟩
    · rw [hnil]
      rfl
    · have hkind : last.kind.isText = false := by
        rcases last.text_or_not with ⟨content, below, rfl⟩ | hkind
        · exact absurd (by rw [heq, List.getLast?_concat]) (hlast content below)
        · exact hkind
      rw [heq, Tree.glue_append_cons, Tree.meet_of_not_text_left hkind]
      simp

theorem addLeaf_eq_addAll {kind : NodeKind} (h : kind.isText = false) (draft : Draft) :
    draft.addLeaf kind = draft.addAll [.node kind []] := by
  have hnode : (Tree.node kind []).kind.isText = false := h
  rw [addAll, addLeaf, Tree.glue_singleton_of_not_text hnode]

theorem addAll_addAll (tree : Tree) (trees : List Tree) (draft : Draft) :
    (draft.addAll [tree]).addAll trees = draft.addAll (Tree.glue [tree] trees) := by
  simp only [addAll, Tree.glue_assoc]

end Draft

/-- What was read is joined. -/
theorem areJoined_of_trees? {s : List Char} {trees : List Tree}
    (h : Draft.trees? s = some trees) : Tree.AreJoined trees := by
  obtain ⟨draft, hread, hdraft⟩ := Option.bind_eq_some_iff.mp h
  have hempty : ({} : Draft).IsJoined := ⟨trivial, nofun⟩
  split at hdraft
  · exact Option.some.inj hdraft ▸ (Draft.read_induction .grows hread hempty).children
  · contradiction

/-- A document that was read is joined. -/
theorem joined_of_parse {markup : String} {sourceName : Option String} {d : Document}
    (h : Document.parse markup sourceName = .ok d) :
    (d.tree Document.root).bare.joined = (d.tree Document.root).bare := by
  have hbare := toOption_parse markup sourceName
  rw [h] at hbare
  obtain ⟨trees, htrees, heq⟩ := Option.map_eq_some_iff.mp hbare.symm
  replace heq : Tree.node .root trees = (d.tree Document.root).bare := heq
  rw [← heq]
  unfold Tree.joined
  rw [(areJoined_of_trees? htrees).joinedAll_eq]
  rfl

end PageTemplate.Markup
