import PageTemplate.Proofs.Markup.Copying
import PageTemplate.Proofs.Markup.Drafting

/-! # Reading fragments

Markup that is read below a new node only adds nodes, whether reading succeeds or not. The nodes
that a fragment consists of are among the new ones.
-/

namespace PageTemplate.Markup

open Document

variable {d d' : Document}

namespace Reading

variable {container parent : NodeId} {reading reading' : Reading}

theorem kind_addNode (d : Document) (parent : NodeId) (kind : NodeKind) (n : NodeId) :
    (addNode d parent kind).1.kind n = if n = d.size then kind else d.kind n := by
  have hkept : (addNode d parent kind).1.kind n = (d.create kind).1.kind n :=
    (kind_place ..).trans (kind_detach ..)
  rw [hkept]
  unfold Document.kind
  rw [node_create]
  split <;> rfl

theorem confined_addNode (hlinked : d.WellLinked) (hparent : parent < d.size) (kind : NodeKind) :
    Confined (fun n => n = parent ∨ d.size ≤ n) d (addNode d parent kind).1 := by
  have hnone := parent_create d kind
  have hlt : parent < (d.create kind).1.size := by
    rw [size_create]
    exact Nat.lt_succ_of_lt hparent
  have hroot : d.size ≠ Document.root := Nat.ne_of_gt (Nat.lt_of_le_of_lt (Nat.zero_le _) hparent)
  refine ⟨?_, by simp, fun n hn => ?_, fun n hn => ?_⟩
  · show ((d.create kind).1.append parent d.size).WellLinked
    unfold Document.append
    rw [detach_of_parent_eq_none _ hnone]
    exact (hlinked.create kind).place hnone hroot hlt (by simp) (Nat.le_refl _)
  · rw [not_or] at hn
    rw [node_addNode hparent, if_neg hn.1, if_neg fun heq => hn.2 (Nat.le_of_eq heq.symm)]
  · have hne : n ≠ d.size := Nat.ne_of_lt (lt_size_of_isElement hn)
    refine (isElement_congr ?_).trans hn
    rw [kind_addNode, if_neg hne]

/-- Text goes on in the last child when that is text, and into a new node when it is not. -/
theorem addText_cases (d : Document) (parent : NodeId) (content : String) :
    addText d parent content = (addNode d parent (.text content)).1 ∨
      ∃ last existing, last ∈ d.children parent ∧ d.kind last = .text existing ∧
        addText d parent content = d.setKind last (.text (existing ++ content)) := by
  unfold addText
  split
  next last hlast =>
    split
    next existing hkind => exact .inr ⟨last, existing, List.mem_of_getLast? hlast, hkind, rfl⟩
    next => exact .inl rfl
  next => exact .inl rfl

theorem confined_addText (hlinked : d.WellLinked) (hparent : parent < d.size) (content : String) :
    Confined (fun n => n = parent ∨ n ∈ d.children parent ∨ d.size ≤ n) d
      (addText d parent content) := by
  rcases addText_cases d parent content with htext | ⟨last, existing, hmem, hkind, htext⟩
  · rw [htext]
    exact (confined_addNode hlinked hparent (.text content)).mono fun _ hn => hn.imp_right .inr
  · have hlt := (hlinked.child_lt parent last hmem).2
    have hnode := node_setKind d hlt (.text (existing ++ content))
    rw [htext]
    refine ⟨hlinked.of_links (by simp) (fun _ => parent_setKind _) (fun _ => children_setKind _),
      by simp, fun n hn => ?_, fun n hn => ?_⟩
    · rw [hnode, if_neg]
      rintro rfl
      exact hn (.inr (.inl hmem))
    · have hne : n ≠ last := by
        rintro rfl
        rw [isElement, hkind] at hn
        cases hn
      refine (isElement_congr ?_).trans hn
      unfold Document.kind
      rw [hnode, if_neg hne]

/-- An element that was read knows the place of its tag, and nothing else of where it comes from. -/
theorem exists_eq_of_readElement {tag : List Char} {place : Location} {element : Element}
    (h : readElement tag place = .ok element) : ∃ attributes, element =
      { Element.named (String.ofList (Tag.name tag)) with attributes, position := some place } := by
  unfold readElement at h
  obtain ⟨attributes, -, h⟩ := exists_ok_of_bind h
  dsimp only at h
  split at h
  · cases h
  · exact ⟨attributes, (Except.ok.inj h).symm⟩

theorem importedFrom_readElement {tag : List Char} {place : Location} {element : Element}
    (h : readElement tag place = .ok element) : element.importedFrom = none := by
  obtain ⟨_, rfl⟩ := exists_eq_of_readElement h
  rfl

/-- What an event does to the document and to the open elements: an element is opened, stands alone
or is closed, and other events add text or a node that is no element. -/
inductive Effect (container : NodeId) (locate : Nat → Location) (reading : Reading) :
    Event → Document → OpenNodes → Prop where
  | opening {tag : List Char} {element : Element}
    (helement : readElement tag (locate reading.offset) = .ok element) :
    Effect container locate reading (.startTag tag)
      (addNode reading.document (innermost container reading.opened) (.element element)).1
      ((Tag.name tag, reading.document.size) :: reading.opened)
  | alone {tag : List Char} {element : Element}
    (helement : readElement tag (locate reading.offset) = .ok element) :
    Effect container locate reading (.emptyTag tag)
      (addNode reading.document (innermost container reading.opened) (.element element)).1
      reading.opened
  | closing {tag : List Char} {id : NodeId} {opened : OpenNodes}
    (hopened : reading.opened = (Tag.closingName tag, id) :: opened) :
    Effect container locate reading (.endTag tag)
      (reading.document.updateElement id fun element =>
        { element with endPosition := some (locate reading.offset) }) opened
  | text {event : Event} (hevent : event.isTag = false) (content : String) :
    Effect container locate reading event
      (addText reading.document (innermost container reading.opened) content) reading.opened
  | leaf {event : Event} {kind : NodeKind} (hevent : event.isTag = false)
    (hkind : kind.isElement = false) :
    Effect container locate reading event
      (addNode reading.document (innermost container reading.opened) kind).1 reading.opened

theorem effect_of_step {locate : Nat → Location} {event : Event}
    (hstep : reading.step container locate event = .ok reading') :
    Effect container locate reading event reading'.document reading'.opened ∧
      reading'.offset = reading.behind event := by
  cases event with
  | startTag tag =>
      rw [step_startTag] at hstep
      cases helement : readElement tag (locate reading.offset) with
      | error error =>
          rw [helement] at hstep
          cases hstep
      | ok element =>
          rw [helement] at hstep
          exact Except.ok.inj hstep ▸ ⟨.opening helement, rfl⟩
  | emptyTag tag =>
      rw [step_emptyTag] at hstep
      cases helement : readElement tag (locate reading.offset) with
      | error error =>
          rw [helement] at hstep
          cases hstep
      | ok element =>
          rw [helement] at hstep
          exact Except.ok.inj hstep ▸ ⟨.alone helement, rfl⟩
  | endTag tag =>
      unfold Reading.step at hstep
      dsimp only at hstep
      split at hstep
      next name id opened hopened =>
        split at hstep
        next hname =>
          rw [hname] at hopened
          exact Except.ok.inj hstep ▸ ⟨.closing hopened, rfl⟩
        next => cases hstep
      next => cases hstep
  | text content => exact Except.ok.inj hstep ▸ ⟨.text rfl _, rfl⟩
  | reference name =>
      obtain ⟨found, -, hresult⟩ := step_reference container locate reading name
      rw [hresult] at hstep
      cases found with
      | error error => cases hstep
      | ok c => exact Except.ok.inj hstep ▸ ⟨.text rfl _, rfl⟩
  | comment content => exact Except.ok.inj hstep ▸ ⟨.leaf rfl rfl, rfl⟩
  | cdata content => exact Except.ok.inj hstep ▸ ⟨.leaf rfl rfl, rfl⟩
  | instruction content => exact Except.ok.inj hstep ▸ ⟨.leaf rfl rfl, rfl⟩
  | declaration content => exact Except.ok.inj hstep ▸ ⟨.leaf rfl rfl, rfl⟩
  | doctype keyword content => exact Except.ok.inj hstep ▸ ⟨.leaf rfl rfl, rfl⟩

/-- Something that holds of the document and the open elements and that no event ends: nodes are
added or opened below the innermost open one, text goes on there, and elements are closed. -/
structure Kept (container : NodeId) (inv : Document → OpenNodes → Prop) : Prop where
  leaf : ∀ {t opened} {kind : NodeKind},
    (∀ element, kind = .element element → element.importedFrom = none) → inv t opened →
      inv (addNode t (innermost container opened) kind).1 opened
  opening : ∀ {t opened} {element : Element} (name : List Char), element.importedFrom = none →
    inv t opened →
      inv (addNode t (innermost container opened) (.element element)).1 ((name, t.size) :: opened)
  text : ∀ {t opened} (content : String), inv t opened →
    inv (addText t (innermost container opened) content) opened
  closing : ∀ {t opened name id} (place : Location), inv t ((name, id) :: opened) →
    inv (t.updateElement id fun element => { element with endPosition := some place }) opened

namespace Kept

variable {inv : Document → OpenNodes → Prop} (hkept : Kept container inv)

include hkept

theorem step (h : inv reading.document reading.opened) {locate : Nat → Location} {event : Event}
    (hstep : reading.step container locate event = .ok reading') :
    inv reading'.document reading'.opened := by
  obtain ⟨heffect, -⟩ := effect_of_step hstep
  obtain ⟨t, opened, offset⟩ := reading'
  dsimp only at heffect ⊢
  cases heffect with
  | opening helement => exact hkept.opening _ (importedFrom_readElement helement) h
  | alone helement =>
      refine hkept.leaf ?_ h
      rintro _ ⟨⟩
      exact importedFrom_readElement helement
  | closing hopened =>
      rw [hopened] at h
      exact hkept.closing _ h
  | text _ content => exact hkept.text content h
  | leaf _ hkind =>
      refine hkept.leaf ?_ h
      rintro element rfl
      cases hkind

theorem run (h : inv reading.document reading.opened) (locate : Nat → Location)
    (events : List Event) : inv (reading.run container locate events).1.document
      (reading.run container locate events).1.opened := by
  induction events generalizing reading with
  | nil => exact h
  | cons event events ih =>
      unfold Reading.run
      cases hstep : reading.step container locate event with
      | error error => exact h
      | ok next => exact ih (hkept.step h hstep)

/-- What events keep holds of the document that reading leaves, also when it stops early. -/
theorem readInto {t : Document} (h : inv t []) (markup : String) :
    ∃ opened, inv (outcome (Document.readInto container markup) t).2 opened := by
  let start : Reading := { document := t }
  have hstart : inv start.document start.opened := h
  rw [outcome_readInto]
  exact ⟨_, hkept.run hstart _ _⟩

end Kept

/-- Only nodes from `d.size` on have been read into. -/
structure Inside (d : Document) (container : NodeId) (t : Document) (opened : OpenNodes) :
    Prop where
  grown : Extends d t
  opened_new : ∀ n ∈ openNodes container opened, d.size ≤ n ∧ n < t.size

namespace Inside

variable {t t' : Document} {opened opened' : OpenNodes}

theorem innermost_new (h : Inside d container t opened) :
    d.size ≤ innermost container opened ∧ innermost container opened < t.size :=
  h.opened_new _ (innermost_mem container opened)

/-- Reading goes on with the same open elements, or fewer. -/
theorem goOn (h : Inside d container t opened) (hgrown : Extends d t') (hsize : t.size ≤ t'.size)
    (hopened : ∀ n ∈ openNodes container opened', n ∈ openNodes container opened) :
    Inside d container t' opened' := by
  refine ⟨hgrown, fun n hn => ?_⟩
  obtain ⟨hnew, hlt⟩ := h.opened_new n (hopened n hn)
  exact ⟨hnew, Nat.lt_of_lt_of_le hlt hsize⟩

theorem addNode (h : Inside d container t opened) (kind : NodeKind) :
    Extends d (Reading.addNode t (innermost container opened) kind).1 := by
  refine Confined.trans h.grown ((confined_addNode h.grown.linked h.innermost_new.2 kind).mono ?_)
  rintro n (rfl | hn)
  · exact h.innermost_new.1
  · exact Nat.le_trans h.grown.size_le hn

theorem kept (hlinked : d.WellLinked) : Kept container (Inside d container) := by
  refine ⟨fun {t opened kind} _ h => ?_, fun {t opened element} name _ h => ?_,
    fun {t opened} content h => ?_, fun {t opened name id} place h => ?_⟩
  · refine h.goOn (h.addNode kind) ?_ fun n hn => hn
    rw [size_addNode]
    exact Nat.le_succ _
  · refine ⟨h.addNode (.element element), fun n hn => ?_⟩
    rw [size_addNode]
    rcases List.mem_cons.mp hn with rfl | hn
    · exact ⟨h.grown.size_le, Nat.lt_succ_self _⟩
    · exact (h.opened_new n hn).imp_right Nat.lt_succ_of_lt
  · have hchange := confined_addText h.grown.linked h.innermost_new.2 content
    refine h.goOn (Confined.trans h.grown (hchange.mono ?_)) hchange.size_le fun n hn => hn
    rintro n (rfl | hn | hn)
    · exact h.innermost_new.1
    · exact h.grown.child_new hlinked h.innermost_new.1 hn
    · exact Nat.le_trans h.grown.size_le hn
  · have hid := h.opened_new id List.mem_cons_self
    have hchange := confined_updateElement
      (fun element => { element with endPosition := some place }) h.grown.linked id
    refine h.goOn (Confined.trans h.grown (hchange.mono ?_)) hchange.size_le fun n hn =>
      List.mem_cons_of_mem _ hn
    rintro n rfl
    exact hid.1

end Inside

/-- Only nodes from `d.size` on have been read into, whatever the links of the others are. -/
structure Behind (d : Document) (container : NodeId) (t : Document) (opened : OpenNodes) :
    Prop where
  size_le : d.size ≤ t.size
  node_eq : ∀ m < d.size, t.node m = d.node m
  child_new : ∀ m, d.size ≤ m → ∀ c ∈ t.children m, d.size ≤ c
  opened_new : ∀ n ∈ openNodes container opened, d.size ≤ n ∧ n < t.size

namespace Behind

variable {t t' : Document} {opened opened' : OpenNodes}

/-- Reading goes on behind the nodes that were there. -/
theorem goOn (h : Behind d container t opened) (hsize : t.size ≤ t'.size)
    (hnode : ∀ m < d.size, t'.node m = t.node m)
    (hchild : ∀ m, d.size ≤ m → ∀ c ∈ t'.children m, c ∈ t.children m ∨ d.size ≤ c)
    (hopened : ∀ n ∈ openNodes container opened',
      n ∈ openNodes container opened ∨ d.size ≤ n ∧ n < t'.size) :
    Behind d container t' opened' := by
  refine ⟨Nat.le_trans h.size_le hsize, fun m hm => (hnode m hm).trans (h.node_eq m hm),
    fun m hm c hc => (hchild m hm c hc).elim (h.child_new m hm c) id, fun n hn => ?_⟩
  rcases hopened n hn with hn | hn
  · exact (h.opened_new n hn).imp_right fun hlt => Nat.lt_of_lt_of_le hlt hsize
  · exact hn

theorem addNode (h : Behind d container t opened) (kind : NodeKind)
    (hopened : ∀ n ∈ openNodes container opened',
      n ∈ openNodes container opened ∨ d.size ≤ n ∧ n < t.size + 1) :
    Behind d container (Reading.addNode t (innermost container opened) kind).1 opened' := by
  obtain ⟨hnew, hlt⟩ := h.opened_new _ (innermost_mem container opened)
  have hnode := node_addNode hlt kind
  refine h.goOn ?_ (fun m hm => ?_) (fun m _ c hc => ?_) (by rwa [size_addNode])
  · rw [size_addNode]
    exact Nat.le_succ _
  · rw [hnode, if_neg (Nat.ne_of_lt (Nat.lt_of_lt_of_le hm hnew)),
      if_neg (Nat.ne_of_lt (Nat.lt_of_lt_of_le hm h.size_le))]
  · rw [children_addNode hlt] at hc
    split at hc
    next hm =>
      subst hm
      rcases List.mem_append.mp hc with hc | hc
      · exact .inl hc
      · exact .inr (List.mem_singleton.mp hc ▸ h.size_le)
    next => exact .inl hc

theorem addText (h : Behind d container t opened) (content : String) :
    Behind d container (Reading.addText t (innermost container opened) content) opened := by
  rcases addText_cases t (innermost container opened) content with
    htext | ⟨last, existing, hmem, -, htext⟩
  · rw [htext]
    exact h.addNode (.text content) fun n hn => .inl hn
  · have hnew := h.child_new _ (h.opened_new _ (innermost_mem container opened)).1 last hmem
    rw [htext]
    refine h.goOn (by simp) (fun m hm => ?_) (fun m _ c hc => .inl ?_) fun n hn => .inl hn
    · unfold setKind
      rw [node_update, if_neg fun heq => Nat.ne_of_lt (Nat.lt_of_lt_of_le hm hnew) heq.1]
    · rwa [children_setKind] at hc

theorem kept (d : Document) (container : NodeId) : Kept container (Behind d container) := by
  refine ⟨fun {t opened kind} _ h => h.addNode kind fun n hn => .inl hn,
    fun {t opened element} name _ h => h.addNode (.element element) fun n hn => ?_,
    fun {t opened} content h => h.addText content, fun {t opened name id} place h => ?_⟩
  · rcases List.mem_cons.mp hn with rfl | hn
    · exact .inr ⟨h.size_le, Nat.lt_succ_self _⟩
    · exact .inl hn
  · have hnew := (h.opened_new id List.mem_cons_self).1
    refine h.goOn (by simp) (fun m hm => ?_) (fun m _ c hc => .inl ?_) fun n hn =>
      .inl (List.mem_cons_of_mem _ hn)
    · unfold updateElement
      rw [node_update, if_neg fun heq => Nat.ne_of_lt (Nat.lt_of_lt_of_le hm hnew) heq.1]
    · rwa [children_updateElement] at hc

end Behind

end Reading

/-! ## What reading fails with -/

/-- The error is one of reading markup. -/
def MarkupError.IsReading : MarkupError → Prop
  | .malformed .. => True
  | .unknownEntity .. => True
  | _ => False

/-- Only the text that is read is at fault when there is no result. -/
def ReadingFault {α : Type} (result : Except MarkupError α) : Prop :=
  ∀ error, result = .error error → error.IsReading

namespace Reading

section

variable {α β : Type}

theorem readingFault_ok (a : α) : ReadingFault (.ok a : Except MarkupError α) := nofun

theorem readingFault_error {error : MarkupError} (h : error.IsReading) :
    ReadingFault (.error error : Except MarkupError α) := by
  rintro _ ⟨⟩
  exact h

theorem readingFault_bind {result : Except MarkupError α} {next : α → Except MarkupError β}
    (h : ReadingFault result) (hnext : ∀ a, ReadingFault (next a)) :
    ReadingFault (result >>= next) := by
  cases result with
  | error error => exact readingFault_error (h error rfl)
  | ok a => exact hnext a

theorem readingFault_map {result : Except MarkupError α} {f : α → β} (h : ReadingFault result) :
    ReadingFault (result.map f) :=
  readingFault_bind h fun a => readingFault_ok (f a)

theorem readingFault_mapM {f : α → Except MarkupError β} (h : ∀ a, ReadingFault (f a))
    (items : List α) : ReadingFault (items.mapM f) := by
  induction items with
  | nil => exact readingFault_ok []
  | cons a items ih =>
      rw [List.mapM_cons]
      exact readingFault_bind (h a) fun b => readingFault_bind ih fun bs => readingFault_ok (b :: bs)

end

variable {container : NodeId} {locate : Nat → Location}

theorem readingFault_readElement (tag : List Char) (place : Location) :
    ReadingFault (readElement tag place) := by
  unfold readElement
  refine readingFault_bind (readingFault_mapM (fun attr => ?_) _) fun attributes => ?_
  · split
    · exact readingFault_ok _
    · exact readingFault_error trivial
  · dsimp only
    split
    · exact readingFault_error trivial
    · exact readingFault_ok _

theorem readingFault_step (reading : Reading) (event : Event) :
    ReadingFault (reading.step container locate event) := by
  cases event with
  | startTag tag =>
      rw [step_startTag]
      exact readingFault_map (readingFault_readElement tag _)
  | emptyTag tag =>
      rw [step_emptyTag]
      exact readingFault_map (readingFault_readElement tag _)
  | endTag tag =>
      unfold step
      dsimp only
      split
      · split
        · exact readingFault_ok _
        · exact readingFault_error trivial
      · exact readingFault_error trivial
  | reference name =>
      unfold step
      dsimp only
      split
      · split
        · exact readingFault_ok _
        · exact readingFault_error trivial
      · split
        · exact readingFault_ok _
        · exact readingFault_error trivial
  | text content => exact readingFault_ok _
  | comment content => exact readingFault_ok _
  | cdata content => exact readingFault_ok _
  | instruction content => exact readingFault_ok _
  | declaration content => exact readingFault_ok _
  | doctype keyword content => exact readingFault_ok _

theorem isReading_of_run {reading : Reading} {events : List Event} {error : MarkupError}
    (h : (reading.run container locate events).2 = some error) : error.IsReading := by
  induction events generalizing reading with
  | nil => cases h
  | cons event events ih =>
      unfold run at h
      split at h
      · exact ih h
      next hstep => exact Option.some.inj h ▸ readingFault_step reading event _ hstep

end Reading

namespace Document

theorem parse_eq (markup : String) (source : Option String) :
    parse markup source = match outcome (readInto root markup) empty with
      | (.ok (), d) => .ok { d with sourceName := source }
      | (.error error, _) => .error error := rfl

theorem outcome_of_parse {markup : String} {source : Option String}
    (h : parse markup source = .ok d) :
    ∃ t, outcome (readInto root markup) empty = (.ok (), t) ∧
      d = { t with sourceName := source } := by
  rw [parse_eq] at h
  split at h
  next t heq => exact ⟨t, heq, (Except.ok.inj h).symm⟩
  next => cases h

theorem readingFault_readInto (container : NodeId) (markup : String) (t : Document) :
    ReadingFault (outcome (readInto container markup) t).1 := by
  rw [outcome_readInto]
  dsimp only
  generalize hstopped : (Reading.run container _ _ _).2 = stopped
  unfold Reading.result
  split
  · exact Reading.readingFault_error (Reading.isReading_of_run hstopped)
  · exact Reading.readingFault_error trivial
  · split
    · exact Reading.readingFault_ok ()
    · exact Reading.readingFault_error trivial

/-- A fragment that cannot be read is malformed, or refers to an entity that is not known. -/
theorem readingFault_parseFragment (markup : String) (d : Document) :
    ReadingFault (outcome (parseFragment markup) d).1 := by
  intro error herror
  have hfails : Ensures (parseFragment markup) d (fun _ _ => True)
      (fun error _ => error.IsReading) := by
    unfold parseFragment
    refine Ensures.bind (Ensures.modifyGet (Ensures.bind ?_))
    generalize Document.createElement d "fragment" = made
    rcases hread : outcome (readInto made.2 markup) made.1 with ⟨error | _, t⟩
    · refine Ensures.of_eq _ hread (readingFault_readInto made.2 markup made.1 error ?_)
      rw [hread]
    · exact Ensures.of_eq _ hread (Ensures.bind (Ensures.get
        (Ensures.bind (Ensures.modify (Ensures.pure trivial)))))
  exact hfails.bad_of_outcome (Prod.ext herror rfl)

theorem ensures_readInto {container : NodeId} {t : Document}
    (h : Reading.Inside d container t []) (hlinked : d.WellLinked) (markup : String) :
    Ensures (readInto container markup) t (fun _ t' => Extends d t' ∧ container < t'.size)
      (fun _ t' => Extends d t' ∧ container < t'.size) := by
  refine .of_state ?_
  obtain ⟨opened, hread⟩ := (Reading.Inside.kept hlinked).readInto h markup
  have hcontainer : container ∈ openNodes container opened := by simp [openNodes]
  exact ⟨hread.grown, (hread.opened_new _ hcontainer).2⟩

/-- The nodes that were there are as they were when a fragment has been read, or has turned out to be
malformed somewhere. This asks nothing of the document. -/
theorem ensures_parseFragment_node (d : Document) (markup : String) :
    Ensures (parseFragment markup) d (fun _ t => ∀ m < d.size, t.node m = d.node m)
      (fun _ t => ∀ m < d.size, t.node m = d.node m) := by
  have hnode : ∀ n, (d.createElement "fragment").1.node n = if n = d.size then
      { kind := .element (.named "fragment") } else d.node n := node_create d _
  have hstart : Reading.Behind d d.size (d.createElement "fragment").1 [] := by
    refine ⟨?_, fun m hm => ?_, fun m hm c hc => ?_, fun n hn => ?_⟩
    · exact Nat.le_of_lt (by simp [createElement])
    · rw [hnode, if_neg (Nat.ne_of_lt hm)]
    · unfold children at hc
      rw [hnode] at hc
      split at hc
      · cases hc
      · rw [node_of_size_le d hm] at hc
        cases hc
    · obtain rfl : n = d.size := by simpa [openNodes] using hn
      exact ⟨Nat.le_refl _, by simp [createElement]⟩
  let inv (t : Document) : Prop := ∃ opened, Reading.Behind d d.size t opened
  have hread : inv (outcome (readInto d.size markup) (d.createElement "fragment").1).2 :=
    (Reading.Behind.kept d d.size).readInto hstart markup
  unfold parseFragment
  refine Ensures.bind (Ensures.modifyGet (Ensures.bind ?_))
  have hleft : ∀ t, inv t → ∀ m < d.size, t.node m = d.node m := by
    rintro t ⟨_, h⟩
    exact h.node_eq
  refine (Ensures.of_state hread).mono ?_ fun _ t h => hleft t h
  rintro _ t ⟨opened, h⟩
  refine Ensures.bind (Ensures.get (Ensures.bind (Ensures.modify (Ensures.pure fun m hm => ?_))))
  have hout : m ∉ t.children d.size := fun hc =>
    absurd (h.child_new _ (Nat.le_refl _) m hc) (Nat.not_le_of_lt hm)
  exact (node_clearChildren_of_ne (Nat.ne_of_lt hm) hout).trans (h.node_eq m hm)

/-- Reading a fragment adds nodes and does nothing else, also when it fails. -/
theorem ensures_parseFragment (hlinked : d.WellLinked) (markup : String) :
    Ensures (parseFragment markup) d
      (fun nodes d' => Extends d d' ∧ nodes.Nodup ∧ ∀ n ∈ nodes, d.size ≤ n ∧ n < d'.size)
      (fun _ d' => Extends d d') := by
  have hcreate : Extends d (d.createElement "fragment").1 := extends_create hlinked _
  have hstart : Reading.Inside d d.size (d.createElement "fragment").1 [] := by
    refine ⟨hcreate, fun n hn => ?_⟩
    obtain rfl : n = d.size := by simpa [openNodes] using hn
    refine ⟨Nat.le_refl _, ?_⟩
    unfold createElement
    simp
  unfold parseFragment
  refine Ensures.bind (Ensures.modifyGet (Ensures.bind ?_))
  refine (ensures_readInto hstart hlinked markup).mono ?_ fun _ _ h => h.1
  rintro _ t ⟨hgrown, hlt⟩
  refine Ensures.bind (Ensures.get (Ensures.bind (Ensures.modify (Ensures.pure ?_))))
  have hnew : ∀ n ∈ t.children d.size, d.size ≤ n := fun n hn =>
    hgrown.child_new hlinked (Nat.le_refl _) hn
  refine ⟨Confined.trans hgrown ((hgrown.linked.confined_clearChildren hlt).mono ?_),
    hgrown.linked.nodup_children _, ?_⟩
  · rintro n (rfl | hn)
    · exact Nat.le_refl _
    · exact hnew n hn
  · intro n hn
    rw [size_clearChildren]
    exact ⟨hnew n hn, (hgrown.linked.child_lt _ n hn).2⟩

end Document

end PageTemplate.Markup
