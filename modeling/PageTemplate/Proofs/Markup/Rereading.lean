import PageTemplate.Proofs.Markup.Joined
import PageTemplate.Proofs.Markup.LeafWriting

/-! # A written document reads back

The markup of a tree adds the tree, joined, to whatever was read before it. A document that is
written and read is therefore the document again, joined and without places. There is one node
whose markup cannot be read: a document type of blanks that are no blanks of markup, which is
kept as an empty one.
-/

namespace PageTemplate.Markup

open Text

/-- The node is written as it stands, nothing escaped. -/
def NodeKind.isVerbatim : NodeKind → Bool
  | .root | .element _ | .text _ => false
  | _ => true

/-- Names are names of XML, no value of a declaration holds a double quote, and the document node
stands at the top only. -/
def NodeKind.WellFormed : NodeKind → Prop
  | .root => False
  | .element e => e.IsXml
  | .declaration version encoding standalone =>
    ∀ value ∈ declaredValues version encoding standalone, '"' ∉ value.toList
  | _ => True

instance : DecidablePred NodeKind.WellFormed
  | .root => inferInstanceAs (Decidable False)
  | .element e => inferInstanceAs (Decidable e.IsXml)
  | .declaration version encoding standalone => inferInstanceAs (Decidable
      (∀ value ∈ declaredValues version encoding standalone, '"' ∉ value.toList))
  | .text _ | .cdata _ | .comment _ | .instruction _ | .doctype _ =>
    inferInstanceAs (Decidable True)

/-- The kinds of node in a document that is to be written: well-formed, and from markup if they
are written as they stand. -/
structure NodeKind.Writable (kind : NodeKind) : Prop where
  wellFormed : kind.WellFormed
  fromMarkup : kind.isVerbatim → kind.FromMarkup

namespace Draft

variable {draft : Draft} {kind : NodeKind}

/-! ## Nodes without others below them -/

/-- A text is added joined, so an empty one leaves nothing behind. -/
theorem read_write_text (content : String) (rest : List Char) :
    draft.read ((escapeText content).toList ++ rest) =
      (draft.addAll (if content = "" then [] else [.node (.text content) []])).read rest := by
  rw [read_escapeText]
  split
  · rw [addAll, Tree.glue_nil_right]
  · rw [addText_eq_addAll]

/-- A text that stands between two others. -/
theorem toList_between (before after : String) (content rest : List Char) :
    (before ++ String.ofList content ++ after).toList ++ rest =
      before.toList ++ (content ++ (after.toList ++ rest)) := by
  rw [String.toList_append, String.toList_append, String.toList_ofList, List.append_assoc,
    List.append_assoc]

/-- One event that is read as a node of the kind adds such a node. -/
theorem read_of_step {s : List Char} {event : Event} {rest : List Char}
    (hread : Event.read s = .ok (event, rest)) (hs : s ≠ []) (hkind : kind.isText = false)
    (hstep : draft.step event = some (draft.addLeaf kind)) :
    draft.read s =
      (draft.addAll (if kind = .text "" then [] else [.node kind []])).read rest := by
  have hne : kind ≠ .text "" := by
    rintro rfl
    cases hkind
  rw [read_of_read hread hs, hstep, Option.bind_some, addLeaf_eq_addAll hkind, if_neg hne]

/-- The markup of a node that holds no others, whatever is stored below it. -/
theorem read_write_leaf (h : kind.Writable) (hleaf : kind.isContainer = false)
    (hne : kind ≠ .doctype "") (isEmpty : Bool) (inner : String) (rest : List Char) :
    draft.read ((kind.write none isEmpty inner).toList ++ rest) =
      (draft.addAll (if kind = .text "" then [] else [.node kind []])).read rest := by
  cases kind with
  | root => cases hleaf
  | element e => cases hleaf
  | text content =>
      simp only [NodeKind.text.injEq]
      exact read_write_text content rest
  | cdata content =>
      have hscanned : (NodeKind.cdata content).Scanned :=
        (h.fromMarkup rfl).scanned.resolve_left nofun
      cases hscanned with
      | @cdata s after content hread =>
          have hagain := Event.read_cdata hread rest
          have hwrite := toList_between "<![CDATA[" "]]>" content rest
          rw [← hwrite] at hagain
          exact read_of_step hagain
            (fun hnil => List.cons_ne_nil _ _ (hwrite.symm.trans hnil)) rfl rfl
  | comment content =>
      have hscanned : (NodeKind.comment content).Scanned :=
        (h.fromMarkup rfl).scanned.resolve_left nofun
      cases hscanned with
      | @comment s after content hread =>
          have hagain := Event.read_comment hread rest
          have hwrite := toList_between "<!--" "-->" content rest
          rw [← hwrite] at hagain
          exact read_of_step hagain
            (fun hnil => List.cons_ne_nil _ _ (hwrite.symm.trans hnil)) rfl rfl
  | instruction content =>
      have hscanned : (NodeKind.instruction content).Scanned :=
        (h.fromMarkup rfl).scanned.resolve_left nofun
      cases hscanned with
      | @instruction s after content hread =>
          have hagain := Event.read_instruction hread rest
          have hwrite := toList_between "<?" "?>" content rest
          rw [← hwrite] at hagain
          exact read_of_step hagain
            (fun hnil => List.cons_ne_nil _ _ (hwrite.symm.trans hnil)) rfl rfl
  | declaration version encoding standalone =>
      have hscanned : (NodeKind.declaration version encoding standalone).Scanned :=
        (h.fromMarkup rfl).scanned.resolve_left nofun
      cases hscanned with
      | declaration hread hkind =>
          obtain ⟨again, hagain, hsame⟩ :=
            read_declaration hread hkind h.wellFormed isEmpty inner rest
          have hstep : draft.step (.declaration again) =
              some (draft.addLeaf (Reading.readDeclaration again)) := rfl
          refine read_of_step hagain ?_ rfl (hsame ▸ hstep)
          rw [toList_write_declaration]
          exact nofun
  | doctype content =>
      have hscanned : (NodeKind.doctype content).Scanned :=
        (h.fromMarkup rfl).scanned.resolve_left nofun
      cases hscanned with
      | @doctype s after keyword content hread =>
          have htrim : trim content ≠ [] := by
            intro hnil
            rw [hnil] at hne
            exact hne rfl
          have hagain := Event.read_doctype hread htrim rest
          have hwrite := toList_between "<!DOCTYPE " ">" (trim content) rest
          have hbracket : (">" : String).toList ++ rest = '>' :: rest := rfl
          rw [hbracket] at hwrite
          rw [← hwrite] at hagain
          have hstep : draft.step (.doctype "DOCTYPE".toList (' ' :: trim content)) =
              some (draft.addLeaf (.doctype (String.ofList (trim ([' '] ++ trim content))))) := rfl
          rw [trim_append_trim (List.all_eq_true.mp (by decide)) content] at hstep
          exact read_of_step hagain
            (fun hnil => List.cons_ne_nil _ _ (hwrite.symm.trans hnil)) rfl hstep

/-- A document type without content cannot be read. -/
theorem read_write_empty_doctype (isEmpty : Bool) (inner : String) (rest : List Char) :
    draft.read (((NodeKind.doctype "").write none isEmpty inner).toList ++ rest) = none := by
  have hfault := Event.read_blank_doctype rest
  have hwrite := toList_between "<!DOCTYPE " ">" [] rest
  have hbracket : [] ++ ((">" : String).toList ++ rest) = '>' :: rest := rfl
  rw [hbracket] at hwrite
  rw [← hwrite] at hfault
  exact read_of_read_error hfault fun hnil =>
    List.cons_ne_nil _ _ (hwrite.symm.trans hnil)

/-! ## Trees -/

theorem addAll_lone (tree : Tree) (trees : List Tree) (draft : Draft) :
    (draft.addAll tree.lone).addAll (Tree.joinedAll trees) =
      draft.addAll (Tree.joinedAll (tree :: trees)) := by
  have hcons : Tree.joinedAll (tree :: trees) = Tree.glue tree.lone (Tree.joinedAll trees) := by
    rw [Tree.joinedAll]
    rfl
  rw [hcons]
  unfold Tree.lone
  split
  · simp [addAll]
  · exact addAll_addAll tree.joined (Tree.joinedAll trees) draft

theorem mem_kindsAll_joinedAll_cons {kind : NodeKind} (hkind : kind.isText = false) (tree : Tree)
    (trees : List Tree) : kind ∈ Tree.kindsAll (Tree.joinedAll (tree :: trees)) ↔
      kind ∈ Tree.kindsAll tree.lone ∨ kind ∈ Tree.kindsAll (Tree.joinedAll trees) := by
  rw [Tree.joinedAll]
  exact Tree.mem_kindsAll_glue hkind _ _

/-- The tags of an element stand around what is read below it. -/
theorem read_write_element {e : Element} (h : e.IsXml) {inner : String} {children : List Tree}
    {blocked : Prop} [Decidable blocked]
    (hinner : ∀ (draft : Draft) (rest : List Char), draft.read (inner.toList ++ rest) =
      if blocked then none else (draft.addAll children).read rest)
    (draft : Draft) (rest : List Char) :
    draft.read (((NodeKind.element e).write none false inner).toList ++ rest) =
      if blocked then none
      else (draft.addAll [.node (.element e.bare) children]).read rest := by
  have hwrite : ((NodeKind.element e).write none false inner).toList ++ rest =
      '<' :: ((NodeKind.writeTag e).toList ++ '>' :: (inner.toList ++
        '<' :: '/' :: (e.name.text.toList ++ '>' :: rest))) := by
    unfold NodeKind.write
    simp only [Bool.false_eq_true, if_false, String.toList_append, List.append_assoc]
    rfl
  rw [hwrite, read_of_read (read_startTag h _) nofun]
  unfold step
  dsimp only
  rw [readElement?_writeTag h, Option.map_some, Option.bind_some, hinner]
  split
  · rfl
  · rw [read_of_read (read_endTag h.name rest) nofun, name_writeTag h]
    unfold step
    dsimp only [addAll]
    rw [closingName_text h.name, if_pos rfl, Option.bind_some, Tree.glue_nil_left,
      Tree.glue_singleton_of_not_text rfl]

theorem read_write_emptyElement {e : Element} (h : e.IsXml) (inner : String) (draft : Draft)
    (rest : List Char) :
    draft.read (((NodeKind.element e).write none true inner).toList ++ rest) =
      (draft.addAll [.node (.element e.bare) []]).read rest := by
  have hwrite : ((NodeKind.element e).write none true inner).toList ++ rest =
      '<' :: ((NodeKind.writeTag e).toList ++ '/' :: '>' :: rest) := by
    unfold NodeKind.write
    simp only [if_true, String.toList_append, List.append_assoc]
    rfl
  rw [hwrite, read_of_read (read_emptyTag h rest) nofun]
  unfold step
  dsimp only
  rw [readElement?_writeTag h, Option.map_some, Option.bind_some, addLeaf_eq_addAll rfl]

/-- A tree whose top holds no others is that node alone. -/
theorem lone_of_leaf (hleaf : kind.isContainer = false) (children : List Tree) :
    (Tree.node kind children).bare.lone =
      if kind = .text "" then [] else [.node kind []] := by
  have hbare :
      (Tree.node kind children).bare = .node kind (Tree.mapAll NodeKind.bare children) := by
    cases kind <;> first | rfl | cases hleaf
  rw [hbare, Tree.lone, Tree.joined, hleaf]
  rfl

theorem mem_kindsAll_leaf :
    .doctype "" ∈ Tree.kindsAll (if kind = .text "" then [] else [.node kind []]) ↔
      kind = .doctype "" := by
  split
  next htext => simp [Tree.kindsAll, htext]
  next => simp [Tree.kindsAll, Tree.kinds, eq_comm]

theorem lone_element (e : Element) (children : List Tree) :
    (Tree.node (.element e) children).bare.lone =
      [.node (.element e.bare) (Tree.joinedAll (Tree.mapAll NodeKind.bare children))] := by
  rw [Tree.bare, Tree.map, Tree.lone, Tree.joined]
  rfl

mutual
/-- The markup of a tree adds the tree as it reads back, unless that holds a document type without
content. -/
theorem read_write (tree : Tree) (h : ∀ kind ∈ tree.kinds, kind.Writable) (draft : Draft)
    (rest : List Char) :
    draft.read ((tree.write none).toList ++ rest) =
      if .doctype "" ∈ Tree.kindsAll tree.bare.lone then none
      else (draft.addAll tree.bare.lone).read rest := by
  match tree with
  | .node kind children =>
      have hkind : kind.Writable := h kind List.mem_cons_self
      have hchildren := read_writeAll children fun kind hmem => h kind (List.mem_cons_of_mem _ hmem)
      cases hcontainer : kind.isContainer with
      | false =>
          rw [lone_of_leaf hcontainer, Tree.write]
          simp only [mem_kindsAll_leaf]
          by_cases hempty : kind = .doctype ""
          · rw [if_pos hempty, hempty]
            exact read_write_empty_doctype _ _ rest
          · rw [if_neg hempty]
            exact read_write_leaf hkind hcontainer hempty _ _ rest
      | true =>
          obtain ⟨e, rfl⟩ : ∃ e, kind = .element e := by
            cases kind <;> first | exact ⟨_, rfl⟩ | exact hkind.wellFormed.elim | cases hcontainer
          rw [lone_element, Tree.write]
          have hmem : ∀ trees : List Tree,
              .doctype "" ∈ Tree.kindsAll [.node (.element e.bare) trees] ↔
                .doctype "" ∈ Tree.kindsAll trees := by
            simp [Tree.kindsAll, Tree.kinds]
          simp only [hmem]
          cases children with
          | nil => exact read_write_emptyElement hkind.wellFormed _ draft rest
          | cons first children => exact read_write_element hkind.wellFormed hchildren draft rest
/-- The markup of trees adds the trees as they read back. -/
theorem read_writeAll (trees : List Tree) (h : ∀ kind ∈ Tree.kindsAll trees, kind.Writable)
    (draft : Draft) (rest : List Char) :
    draft.read ((Tree.writeAll none trees).toList ++ rest) =
      if .doctype "" ∈ Tree.kindsAll (Tree.joinedAll (Tree.mapAll NodeKind.bare trees)) then none
      else (draft.addAll (Tree.joinedAll (Tree.mapAll NodeKind.bare trees))).read rest := by
  match trees with
  | [] =>
      rw [Tree.mapAll, Tree.joinedAll]
      simp [Tree.writeAll, Tree.kindsAll, addAll]
  | tree :: trees =>
      have htree := read_write tree (fun kind hmem => h kind (List.mem_append_left _ hmem))
      have htrees := read_writeAll trees fun kind hmem => h kind (List.mem_append_right _ hmem)
      have hbare : Tree.mapAll NodeKind.bare (tree :: trees) =
          tree.bare :: Tree.mapAll NodeKind.bare trees := rfl
      have htext : (NodeKind.doctype "").isText = false := rfl
      have hmem := mem_kindsAll_joinedAll_cons htext tree.bare (Tree.mapAll NodeKind.bare trees)
      rw [Tree.writeAll, String.toList_append, List.append_assoc, htree, htrees, addAll_lone, hbare]
      simp only [hmem]
      split
      next hmem => rw [if_pos (.inl hmem)]
      next hmem => simp only [hmem, false_or]
end

end Draft

/-! ## Documents -/

/-- The trees that are read from written trees. -/
theorem trees?_writeAll {trees : List Tree} (h : ∀ kind ∈ Tree.kindsAll trees, kind.Writable) :
    Draft.trees? (Tree.writeAll none trees).toList =
      if .doctype "" ∈ Tree.kindsAll (Tree.joinedAll (Tree.mapAll NodeKind.bare trees)) then none
      else some (Tree.joinedAll (Tree.mapAll NodeKind.bare trees)) := by
  have hread := Draft.read_writeAll trees h {} []
  rw [List.append_nil] at hread
  unfold Draft.trees?
  rw [hread]
  split
  · rfl
  · simp [Draft.addAll]

variable {d : Document}

theorem readable_of_head?_ne {markup : String} (h : markup.toList.head? ≠ some '\uFEFF') :
    readable markup = markup.toList := by
  unfold readable
  cases hlist : markup.toList with
  | nil => rfl
  | cons c rest =>
      rw [hlist] at h
      rw [strip?_cons_of_ne fun heq => h (congrArg some heq.symm)]
      rfl

/-- A written document reads back as the same document, joined, unless it holds a document type
without content; then it does not read back at all. A document that was read is joined, so it
reads back as it is. -/
theorem parse_write_iff (hroot : d.kind Document.root = .root)
    (hkinds : ∀ kind ∈ Tree.kindsAll (d.tree Document.root).children, kind.Writable)
    (hmark : d.write.toList.head? ≠ some '\uFEFF') :
    ((∃ d', Document.parse d.write = .ok d' ∧
        (d'.tree Document.root).bare = (d.tree Document.root).bare.joined) ↔
      .doctype "" ∉ (d.tree Document.root).bare.joined.kinds) ∧
    ∀ markup, Document.parse markup = .ok d →
      (d.tree Document.root).bare.joined = (d.tree Document.root).bare := by
  refine ⟨?_, fun markup hparse => joined_of_parse hparse⟩
  obtain ⟨children, htree⟩ : ∃ children, d.tree Document.root = .node .root children := by
    have hkind := d.kind_tree Document.root
    rw [hroot] at hkind
    cases htree : d.tree Document.root with
    | node kind children =>
        rw [htree] at hkind
        exact ⟨children, congrArg (Tree.node · children) hkind⟩
  have hwrite : d.write = Tree.writeAll none children := by
    unfold Document.write Document.writeLabelled
    rw [htree]
    rfl
  have hjoined : (d.tree Document.root).bare.joined =
      .node .root (Tree.joinedAll (Tree.mapAll NodeKind.bare children)) := by
    rw [htree, Tree.bare, Tree.map, Tree.joined]
    rfl
  have hparse := toOption_parse d.write none
  rw [htree, Tree.children] at hkinds
  rw [readable_of_head?_ne hmark, hwrite, trees?_writeAll hkinds, ← hwrite] at hparse
  have hmem : .doctype "" ∈ (d.tree Document.root).bare.joined.kinds ↔
      .doctype "" ∈ Tree.kindsAll (Tree.joinedAll (Tree.mapAll NodeKind.bare children)) := by
    rw [hjoined]
    simp [Tree.kinds]
  rw [hmem, hjoined]
  constructor
  · rintro ⟨d', hd', -⟩ hempty
    rw [hd', if_pos hempty] at hparse
    cases hparse
  · intro hempty
    rw [if_neg hempty] at hparse
    obtain ⟨d', hd', heq⟩ := Option.map_eq_some_iff.mp hparse
    refine ⟨d', ?_, heq⟩
    cases hresult : Document.parse d.write with
    | error fault =>
        rw [hresult] at hd'
        cases hd'
    | ok found =>
        rw [hresult] at hd'
        rw [Option.some.inj hd']

/-- What a text is read as, or an empty document when it cannot be read. -/
def documentOf (markup : String) : Document :=
  (Document.parse markup).toOption.getD Document.empty

theorem parse_eq_documentOf {markup : String} (h : (Document.parse markup).toOption.isSome) :
    Document.parse markup = .ok (documentOf markup) := by
  unfold documentOf
  cases hparse : Document.parse markup with
  | error fault =>
      rw [hparse] at h
      cases h
  | ok d => rfl

/-- Of a document that was read, only the names and the values of declarations matter. -/
theorem writable_of_parse {markup : String} {d : Document} (hparse : Document.parse markup = .ok d)
    (h : ∀ kind ∈ Tree.kindsAll (d.tree Document.root).children, kind.WellFormed) :
    ∀ kind ∈ Tree.kindsAll (d.tree Document.root).children, kind.Writable := by
  intro kind hkind
  refine ⟨h kind hkind, fun _ => ⟨markup, d, hparse, ?_⟩⟩
  cases htree : d.tree Document.root with
  | node top children =>
      rw [htree] at hkind
      exact List.mem_cons_of_mem _ hkind

def letter : String :=
  "<?xml version='1.0'?><!DOCTYPE p ><p class='&quot;a&quot;'>5 &lt; 6<br/><!--&--></p>"

theorem parse_write_letter : ∃ d, Document.parse (documentOf letter).write = .ok d ∧
    (d.tree Document.root).bare = ((documentOf letter).tree Document.root).bare.joined := by
  have hparse : Document.parse letter = _ := parse_eq_documentOf (by decide +kernel)
  have hkinds := writable_of_parse hparse (by decide +kernel)
  exact (parse_write_iff (by decide +kernel) hkinds (by decide +kernel)).1.mpr (by decide +kernel)

/-- A document type of one no-break space. -/
def blankDoctype : String := "<!DOCTYPE\u00a0><r/>"

theorem not_parse_write_blankDoctype : ∃ d : Document,
    d.kind Document.root = .root ∧
      (∀ kind ∈ Tree.kindsAll (d.tree Document.root).children, kind.Writable) ∧
      d.write.toList.head? ≠ some '\uFEFF' ∧ ¬ ∃ d', Document.parse d.write = .ok d' := by
  have hparse : Document.parse blankDoctype = _ := parse_eq_documentOf (by decide +kernel)
  refine ⟨documentOf blankDoctype, by decide +kernel,
    writable_of_parse hparse (by decide +kernel), by decide +kernel, ?_⟩
  rintro ⟨d', hd'⟩
  have hnone : (Document.parse (documentOf blankDoctype).write).toOption.isSome = false := by
    decide +kernel
  rw [hd'] at hnone
  cases hnone

end PageTemplate.Markup
