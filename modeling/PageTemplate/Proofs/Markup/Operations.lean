import PageTemplate.Proofs.Markup.Acyclicity
import PageTemplate.Proofs.Markup.FragmentReading

/-! # Calls on a document

A document is changed from outside by calls of its public operations, on numbers of its nodes. A
call that fails keeps what it did before the failure. Whatever the calls are, the parents and the
child lists of the document tell of the same tree. The tree has no cycle unless a call places a
node inside the node's own subtree.
-/

namespace PageTemplate.Markup

open Document

variable {tame : Prop} {d d' start : Document}

/-! ## Reading -/

namespace Reading

variable {container parent : NodeId} {opened : OpenNodes}

theorem relinked_addNode (h : Coherent tame d) (hparent : parent < d.size) (kind : NodeKind) :
    Coherent.Added tame d (addNode d parent kind).1 := by
  have hcreate : Coherent.Added tame d (d.create kind).1 := h.relinked_create kind
  have hout : ¬ (d.create kind).1.Below d.size parent :=
    Coherent.not_below_new h.linked hcreate (Nat.le_refl _) hparent
  have happend := hcreate.coherent.append (Nat.lt_of_lt_of_le hparent hcreate.size_le) (by simp)
    fun _ => hout
  refine ⟨happend.coherent, Nat.le_trans hcreate.size_le happend.size_le, fun c hc q hq => ?_⟩
  refine hcreate.parents c hc q ?_
  rwa [← happend.parent_eq c (Nat.ne_of_lt hc)]

theorem relinked_addText (h : Coherent tame d) (hparent : parent < d.size) (content : String) :
    Coherent.Added tame d (addText d parent content) := by
  rcases addText_cases d parent content with htext | ⟨last, existing, -, -, htext⟩
  · rw [htext]
    exact relinked_addNode h hparent _
  · rw [htext]
    refine ⟨h.setKind last _, Nat.le_of_eq (size_setKind d _).symm, fun c _ q hq => .inl ?_⟩
    rwa [parent_setKind] at hq

theorem size_le_addText (d : Document) (parent : NodeId) (content : String) :
    d.size ≤ (addText d parent content).size := by
  rcases addText_cases d parent content with htext | ⟨last, existing, -, -, htext⟩ <;> simp [htext]

/-- Reading adds nodes, and all open elements are nodes of the document. -/
theorem kept_added (d : Document) (container : NodeId) :
    Kept container fun t opened =>
      Coherent.Added tame d t ∧ ∀ n ∈ openNodes container opened, n < t.size := by
  refine ⟨?_, ?_, ?_, ?_⟩
  · rintro t opened kind - ⟨hadded, hopened⟩
    have hparent := hopened _ (innermost_mem container opened)
    refine ⟨hadded.trans (relinked_addNode hadded.coherent hparent kind), fun n hn => ?_⟩
    rw [size_addNode]
    exact Nat.lt_succ_of_lt (hopened n hn)
  · rintro t opened element name - ⟨hadded, hopened⟩
    have hparent := hopened _ (innermost_mem container opened)
    refine ⟨hadded.trans (relinked_addNode hadded.coherent hparent _), fun n hn => ?_⟩
    rw [size_addNode]
    rcases List.mem_cons.mp hn with rfl | hn
    · exact Nat.lt_succ_self _
    · exact Nat.lt_succ_of_lt (hopened n hn)
  · rintro t opened content ⟨hadded, hopened⟩
    have hparent := hopened _ (innermost_mem container opened)
    refine ⟨hadded.trans (relinked_addText hadded.coherent hparent content), fun n hn => ?_⟩
    exact Nat.lt_of_lt_of_le (hopened n hn) (size_le_addText t _ content)
  · rintro t opened name id place ⟨hadded, hopened⟩
    refine ⟨⟨hadded.coherent.updateElement id _, ?_, fun c hc q hq => ?_⟩, fun n hn => ?_⟩
    · rw [size_updateElement]
      exact hadded.size_le
    · rw [parent_updateElement] at hq
      exact hadded.parents c hc q hq
    · rw [size_updateElement]
      exact hopened n (List.mem_cons_of_mem _ hn)

end Reading

namespace Document

theorem added_readInto {container : NodeId} (hadded : Coherent.Added tame d d')
    (hcontainer : container < d'.size) (markup : String) :
    Coherent.Added tame d (outcome (readInto container markup) d').2 ∧
      container < (outcome (readInto container markup) d').2.size := by
  obtain ⟨opened, hread, hopened⟩ := (Reading.kept_added d container).readInto
    ⟨hadded, by simpa [openNodes] using hcontainer⟩ markup
  exact ⟨hread, hopened container (by simp [openNodes])⟩

theorem ensures_parseFragment_added (h : Coherent tame d) (markup : String) :
    Ensures (parseFragment markup) d (fun _ => Coherent.Added tame d)
      (fun _ => Coherent.Added tame d) := by
  have hcreate : Coherent.Added tame d (d.createElement "fragment").1 := h.relinked_create _
  have hcontainer : d.size < (d.createElement "fragment").1.size := by simp [createElement]
  have hread := added_readInto hcreate hcontainer markup
  unfold parseFragment
  refine Ensures.bind (Ensures.modifyGet (Ensures.bind ?_))
  let inv (t : Document) : Prop := Coherent.Added tame d t ∧ d.size < t.size
  have hinv : inv (outcome (readInto d.size markup) (d.createElement "fragment").1).2 := hread
  refine (Ensures.of_state hinv).mono ?_ fun _ _ => And.left
  rintro _ t ⟨hadded, hlt⟩
  refine Ensures.bind (Ensures.get (Ensures.bind (Ensures.modify (Ensures.pure ?_))))
  exact hadded.trans (hadded.coherent.relinked_clearChildren hlt)

theorem coherent_empty : Coherent tame empty := by
  have hnone : ∀ n, empty.children n = [] ∧ empty.parent n = none := by
    intro n
    cases n <;> exact ⟨rfl, rfl⟩
  refine ⟨⟨fun p c => ?_, fun p => ?_, fun p c hc => ?_⟩, fun _ => ?_⟩
  · simp [hnone]
  · simp [hnone]
  · simp [hnone] at hc
  · intro n hn
    obtain ⟨p, hp, -⟩ := Relation.TransGen.head'_iff.mp hn
    simp [hnone] at hp

theorem coherent_parse {markup : String} {sourceName : Option String}
    (h : parse markup sourceName = .ok d) : Coherent tame d := by
  have hroot : root < empty.size := by decide
  have hread := added_readInto (.refl (coherent_empty : Coherent tame empty)) hroot markup
  obtain ⟨t, houtcome, rfl⟩ := outcome_of_parse h
  rw [houtcome] at hread
  exact hread.1.coherent.of_links (Nat.le_refl _) (fun _ => rfl) fun _ => rfl

end Document

/-! ## Operations -/

/-- A call of an operation that changes the tree of a document. -/
inductive Operation where
  | create (kind : NodeKind)
  | detach (id : NodeId)
  | append (parent child : NodeId)
  | insertBefore (reference new : NodeId)
  | insertAfter (reference new : NodeId)
  | replace (old : NodeId) (replacements : List NodeId)
  | omitTag (id : NodeId)
  | clearChildren (id : NodeId)
  | replaceChildren (id : NodeId) (children : List NodeId)
  | deepCopy (id : NodeId)
  | importSubtree (other : Document) (id : NodeId)
  | parseFragment (markup : String)

namespace Operation

/-- The document after the call, whether the call succeeded or not. -/
def run (d : Document) : Operation → Document
  | create kind => (d.create kind).1
  | detach id => d.detach id
  | append parent child => d.append parent child
  | insertBefore reference new => (outcome (Document.insertBefore reference new) d).2
  | insertAfter reference new => (outcome (Document.insertAfter reference new) d).2
  | replace old replacements => (outcome (Document.replace old replacements) d).2
  | omitTag id => (outcome (Document.omitTag id) d).2
  | clearChildren id => d.clearChildren id
  | replaceChildren id children => d.replaceChildren id children
  | deepCopy id => (d.deepCopy id).1
  | importSubtree other id => (d.importSubtree other id).1
  | parseFragment markup => (outcome (Document.parseFragment markup) d).2

/-- The nodes of the document that the call speaks of. -/
def nodes : Operation → List NodeId
  | create _ | importSubtree _ _ | parseFragment _ => []
  | detach id | omitTag id | clearChildren id | deepCopy id => [id]
  | append first second | insertBefore first second | insertAfter first second => [first, second]
  | replace first others | replaceChildren first others => first :: others

/-- The call puts the node `child` of the document below `parent`. A call that stands nodes in the
place of one that is among them stops there. New nodes are not spoken of. -/
def Places (d : Document) (parent child : NodeId) : Operation → Prop
  | append p c => parent = p ∧ child = c
  | insertBefore reference new | insertAfter reference new =>
    d.parent reference = some parent ∧ child = new ∧ reference ≠ new
  | replace old replacements =>
    d.parent old = some parent ∧ child ∈ replacements.takeWhile (· ≠ old)
  | omitTag id => d.parent id = some parent ∧ child ∈ d.children id
  | replaceChildren id children => parent = id ∧ child ∈ children
  | _ => False

/-- The call places a node inside the node's own subtree. -/
def Encloses (d : Document) (op : Operation) : Prop :=
  ∃ parent child, op.Places d parent child ∧ d.Below child parent

/-- A call keeps links in agreement, gives nodes only the parents that it places them below, and
closes no cycle when it encloses none. -/
theorem relinked_run (h : Coherent tame d) (op : Operation) (hnodes : ∀ n ∈ op.nodes, n < d.size)
    (htame : tame → ¬ op.Encloses d) :
    Relinked tame (fun parent child => op.Places d parent child) d (op.run d) := by
  have hout : tame → ∀ p c, op.Places d p c → ¬ d.Below c p :=
    fun ht p c hplaces hbelow => htame ht ⟨p, c, hplaces, hbelow⟩
  cases op with
  | create kind => exact h.relinked_create kind
  | detach id => exact h.relinked_detach id
  | append p c =>
      obtain ⟨hp, hc⟩ : p < d.size ∧ c < d.size := by simpa [nodes] using hnodes
      exact (h.append hp hc fun ht => hout ht p c ⟨rfl, rfl⟩).toRelinked
  | insertBefore reference new =>
      have hnew : new < d.size := hnodes new (by simp [nodes])
      have hbeside := h.ensures_insertBefore hnew fun ht hne p hp => hout ht p new ⟨hp, rfl, hne⟩
      refine (hbeside.mono (fun _ t ht => ?_) fun _ t ht => ?_).state
      · obtain ⟨hne, p, hp, hentered⟩ := ht
        refine hentered.toRelinked.mono ?_
        rintro _ _ ⟨rfl, rfl⟩
        exact ⟨hp, rfl, hne⟩
      · exact ht.mono fun _ _ => False.elim
  | insertAfter reference new =>
      have hnew : new < d.size := hnodes new (by simp [nodes])
      have hbeside := h.ensures_insertAfter hnew fun ht hne p hp => hout ht p new ⟨hp, rfl, hne⟩
      refine (hbeside.mono (fun _ t ht => ?_) fun _ t ht => ?_).state
      · obtain ⟨hne, p, hp, hentered⟩ := ht
        refine hentered.toRelinked.mono ?_
        rintro _ _ ⟨rfl, rfl⟩
        exact ⟨hp, rfl, hne⟩
      · exact ht.mono fun _ _ => False.elim
  | replace old replacements =>
      refine (h.ensures_replace (fun n hn => hnodes n (List.mem_cons_of_mem _ hn))
        fun ht n hn p hp => hout ht p n ⟨hp, hn⟩).state
  | omitTag id => exact (h.ensures_omitTag id).state
  | clearChildren id => exact h.relinked_clearChildren (hnodes id (by simp [nodes]))
  | replaceChildren id children =>
      obtain ⟨hid, hchildren⟩ := List.forall_mem_cons.mp hnodes
      exact h.relinked_replaceChildren hid hchildren fun ht n hn => hout ht id n ⟨rfl, hn⟩
  | deepCopy id => exact (Coherent.added_graft h (d.tree id)).1
  | importSubtree other id =>
      have hgraft : Coherent.Added tame d (d.graft (other.tree id)).1 :=
        (Coherent.added_graft h (other.tree id)).1
      show Coherent.Added tame d (d.importSubtree other id).1
      unfold Document.importSubtree
      dsimp only
      split
      · exact hgraft
      · refine ⟨hgraft.coherent.updateElement _ _, ?_, fun c hc q hq => ?_⟩
        · rw [size_updateElement]
          exact hgraft.size_le
        · rw [parent_updateElement] at hq
          exact hgraft.parents c hc q hq
  | parseFragment markup => exact (ensures_parseFragment_added h markup).state

/-! ## Sequences of calls -/

/-- The document after calls, one after the other. -/
def runAll (d : Document) (calls : List Operation) : Document := calls.foldl run d

/-- Every call is as `good` says of it and of the document that it is made on. -/
def Each (good : Document → Operation → Prop) : Document → List Operation → Prop
  | _, [] => True
  | d, call :: calls => good d call ∧ Each good (call.run d) calls

/-- The call speaks of nodes that are there. -/
def InRange (d : Document) (call : Operation) : Prop := ∀ n ∈ call.nodes, n < d.size

theorem coherent_runAll (h : Coherent tame d) {calls : List Operation}
    (hcalls : Each InRange d calls)
    (htame : tame → Each (fun d call => ¬ call.Encloses d) d calls) :
    Coherent tame (runAll d calls) := by
  induction calls generalizing d with
  | nil => exact h
  | cons call calls ih =>
      have hrun := relinked_run h call hcalls.1 fun ht => (htame ht).1
      exact ih hrun.coherent hcalls.2 fun ht => (htame ht).2

/-- Calls on a new document, or on one that was read, leave child lists and parents that agree: a
node is listed by its parent alone, and once, and every stored number is that of a node. When no
call placed a node inside its own subtree, no node is among its own ancestors. -/
theorem links_after_calls
    (hstart : start = empty ∨ ∃ markup sourceName, parse markup sourceName = .ok start)
    {calls : List Operation} (hcalls : Each InRange start calls) :
    let d := runAll start calls
    (∀ p c, c ∈ d.children p ↔ d.parent c = some p) ∧ (∀ p, (d.children p).Nodup) ∧
      (∀ n, (∀ p, d.parent n = some p → p < d.size) ∧ ∀ c ∈ d.children n, c < d.size) ∧
      (Each (fun d call => ¬ call.Encloses d) start calls → d.Acyclic) := by
  have hcoherent : ∀ {tame : Prop}, Coherent tame start := by
    intro tame
    rcases hstart with rfl | ⟨markup, sourceName, hparse⟩
    · exact coherent_empty
    · exact coherent_parse hparse
  obtain ⟨hlinked, hacyclic⟩ := coherent_runAll hcoherent hcalls id
  exact ⟨hlinked.mem_children_iff, hlinked.nodup_children,
    fun n => ⟨fun p hp => (hlinked.lt_of_parent hp).1, fun c hc => (hlinked.child_lt n c hc).2⟩,
    hacyclic⟩

instance (d : Document) (call : Operation) : Decidable (call.InRange d) :=
  inferInstanceAs (Decidable (∀ n ∈ call.nodes, n < d.size))

instance (good : Document → Operation → Prop) [∀ d call, Decidable (good d call)] :
    (d : Document) → (calls : List Operation) → Decidable (Each good d calls)
  | _, [] => .isTrue trivial
  | d, call :: calls =>
    have := instDecidableEach good (call.run d) calls
    inferInstanceAs (Decidable (good d call ∧ Each good (call.run d) calls))

/-- Two new nodes get their places. Then one of them is moved before the document node, which
fails and leaves it outside, markup is read that breaks off, and the node is put back. -/
def rebuilding : List Operation :=
  [.create (.element (.named "a")), .create (.text "t"), .append 0 1, .append 1 2,
    .insertBefore 0 2, .parseFragment "<b/></i>", .append 1 2]

/-- A node without children encloses nothing. -/
theorem not_encloses_append {p c : NodeId} (hnone : d.children c = []) (hne : p ≠ c) :
    ¬ (append p c).Encloses d := by
  rintro ⟨_, _, ⟨rfl, rfl⟩, hbelow⟩
  refine hne ?_
  clear hne
  induction hbelow with
  | refl => rfl
  | child _ hchild ih =>
      rw [ih, hnone] at hchild
      cases hchild

theorem links_after_rebuilding :
    Each InRange empty rebuilding ∧ (runAll empty rebuilding).Acyclic := by
  have hrange : Each InRange empty rebuilding := by decide +kernel
  refine ⟨hrange, (links_after_calls (.inl rfl) hrange).2.2.2 ⟨?_, ?_, ?_, ?_, ?_, ?_, ?_, trivial⟩⟩
  · exact fun ⟨_, _, hplaces, _⟩ => hplaces
  · exact fun ⟨_, _, hplaces, _⟩ => hplaces
  · exact not_encloses_append (by decide +kernel) (by decide)
  · exact not_encloses_append (by decide +kernel) (by decide)
  · rintro ⟨p, _, ⟨hp, -⟩, -⟩
    rw [show Document.parent _ 0 = none by decide +kernel] at hp
    cases hp
  · exact fun ⟨_, _, hplaces, _⟩ => hplaces
  · exact not_encloses_append (by decide +kernel) (by decide)

/-- A node placed below itself closes a cycle. -/
example : ¬ (runAll empty [.create (.element (.named "a")), .append 1 1]).Acyclic :=
  fun h => h 1 (.single (by decide +kernel))

end Operation

end PageTemplate.Markup
