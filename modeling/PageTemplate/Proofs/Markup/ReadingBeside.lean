import PageTemplate.Proofs.Markup.FragmentReading
import PageTemplate.Proofs.SideBySide

/-! # Reading the same markup into two documents

The events of a text are the same wherever it is read, and whether one can be carried out depends on
the names of the open elements alone. So reading into two documents ends alike, and a relation
between the documents that no event ends holds of what is left of them.
-/

namespace PageTemplate.Markup.Reading

open Document

variable {container container' : NodeId}
  {rel : Document → OpenNodes → Document → OpenNodes → Prop}

/-- Something that holds of two documents with their open elements, and that no event ends when it
is carried out on both. -/
structure KeptBeside (container container' : NodeId)
    (rel : Document → OpenNodes → Document → OpenNodes → Prop) : Prop where
  names : ∀ {t opened t' opened'}, rel t opened t' opened' →
    opened'.map (·.1) = opened.map (·.1)
  leaf : ∀ {t opened t' opened'} (kind : NodeKind), rel t opened t' opened' →
    rel (addNode t (innermost container opened) kind).1 opened
      (addNode t' (innermost container' opened') kind).1 opened'
  opening : ∀ {t opened t' opened'} (name : List Char) (element : Element),
    rel t opened t' opened' →
      rel (addNode t (innermost container opened) (.element element)).1 ((name, t.size) :: opened)
        (addNode t' (innermost container' opened') (.element element)).1
        ((name, t'.size) :: opened')
  text : ∀ {t opened t' opened'} (content : String), rel t opened t' opened' →
    rel (addText t (innermost container opened) content) opened
      (addText t' (innermost container' opened') content) opened'
  closing : ∀ {t opened t' opened' name name' id id'} (place : Location),
    rel t ((name, id) :: opened) t' ((name', id') :: opened') →
      rel (t.updateElement id fun element => { element with endPosition := some place }) opened
        (t'.updateElement id' fun element => { element with endPosition := some place }) opened'

/-- Two readings have got equally far. -/
structure Beside (rel : Document → OpenNodes → Document → OpenNodes → Prop)
    (reading reading' : Reading) : Prop where
  related : rel reading.document reading.opened reading'.document reading'.opened
  offset : reading'.offset = reading.offset

namespace KeptBeside

variable (hkept : KeptBeside container container' rel) (locate : Nat → Location)
  {reading reading' : Reading}

include hkept

/-- An event is carried out on both documents, or on neither for the same reason. -/
theorem step (h : Beside rel reading reading') (event : Event) :
    (∃ next next', reading.step container locate event = .ok next ∧
        reading'.step container' locate event = .ok next' ∧ Beside rel next next') ∨
      ∃ error, reading.step container locate event = .error error ∧
        reading'.step container' locate event = .error error := by
  obtain ⟨d, opened, offset⟩ := reading
  obtain ⟨d', opened', offset'⟩ := reading'
  obtain ⟨hrel, hoffset⟩ := h
  obtain rfl : offset' = offset := hoffset
  have hleaf := fun kind => hkept.leaf kind hrel
  have htext := fun content => hkept.text content hrel
  cases event with
  | startTag tag =>
      rw [step_startTag, step_startTag]
      cases readElement tag (locate offset') with
      | error error => exact .inr ⟨error, rfl, rfl⟩
      | ok element => exact .inl ⟨_, _, rfl, rfl, hkept.opening (Tag.name tag) element hrel, rfl⟩
  | emptyTag tag =>
      rw [step_emptyTag, step_emptyTag]
      cases readElement tag (locate offset') with
      | error error => exact .inr ⟨error, rfl, rfl⟩
      | ok element => exact .inl ⟨_, _, rfl, rfl, hleaf (.element element), rfl⟩
  | endTag tag =>
      have hnames := hkept.names hrel
      unfold Reading.step
      dsimp only at hnames ⊢
      cases opened with
      | nil =>
          obtain rfl := List.map_eq_nil_iff.mp hnames
          exact .inr ⟨_, rfl, rfl⟩
      | cons entry opened =>
          obtain ⟨entry', opened', rfl, hname, -⟩ := List.map_eq_cons_iff.mp hnames
          obtain ⟨name, id⟩ := entry
          obtain ⟨name', id'⟩ := entry'
          obtain rfl : name' = name := hname
          dsimp only
          split
          · exact .inl ⟨_, _, rfl, rfl, hkept.closing _ hrel, rfl⟩
          · exact .inr ⟨_, rfl, rfl⟩
  | reference name =>
      unfold Reading.step
      dsimp only
      split
      next number =>
        cases Reference.character number with
        | error fault => exact .inr ⟨_, rfl, rfl⟩
        | ok c => exact .inl ⟨_, _, rfl, rfl, htext (String.singleton c), rfl⟩
      next =>
        cases Reference.predefined? name with
        | none => exact .inr ⟨_, rfl, rfl⟩
        | some c => exact .inl ⟨_, _, rfl, rfl, htext (String.singleton c), rfl⟩
  | text content => exact .inl ⟨_, _, rfl, rfl, htext (String.ofList content), rfl⟩
  | comment content => exact .inl ⟨_, _, rfl, rfl, hleaf _, rfl⟩
  | cdata content => exact .inl ⟨_, _, rfl, rfl, hleaf _, rfl⟩
  | instruction content => exact .inl ⟨_, _, rfl, rfl, hleaf _, rfl⟩
  | declaration content => exact .inl ⟨_, _, rfl, rfl, hleaf _, rfl⟩
  | doctype keyword content => exact .inl ⟨_, _, rfl, rfl, hleaf _, rfl⟩

/-- Events are carried out alike up to the one that reading stops at. -/
theorem run (h : Beside rel reading reading') (events : List Event) :
    Beside rel (reading.run container locate events).1
        (reading'.run container' locate events).1 ∧
      (reading'.run container' locate events).2 = (reading.run container locate events).2 := by
  induction events generalizing reading reading' with
  | nil => exact ⟨h, rfl⟩
  | cons event events ih =>
      unfold Reading.run
      rcases hkept.step locate h event with
        ⟨next, next', hnext, hnext', hbeside⟩ | ⟨error, herror, herror'⟩
      · rw [hnext, hnext']
        exact ih hbeside
      · rw [herror, herror']
        exact ⟨h, rfl⟩

/-- Whether a reading is complete does not depend on which nodes are open. -/
theorem result_eq (h : Beside rel reading reading') (whole : List Char)
    (stopped : Option MarkupError) (fault : Option Event.Fault) :
    reading'.result whole stopped fault = reading.result whole stopped fault := by
  have hempty : reading'.opened.isEmpty = reading.opened.isEmpty := by
    have hnames := congrArg List.isEmpty (hkept.names h.related)
    rwa [List.isEmpty_map, List.isEmpty_map] at hnames
  unfold result
  rw [h.offset, hempty]

/-- Reading ends alike, and the relation holds of the documents that are left. -/
theorem readInto {d d' : Document} (h : rel d [] d' []) (markup : String) :
    EndAlike (fun _ t _ t' => ∃ opened opened', rel t opened t' opened')
      (SameError fun t t' => ∃ opened opened', rel t opened t' opened')
      (outcome (Document.readInto container markup) d)
      (outcome (Document.readInto container' markup) d') := by
  have hstart : Beside rel { document := d } { document := d' } := ⟨h, rfl⟩
  rw [outcome_readInto, outcome_readInto]
  obtain ⟨hbeside, hstopped⟩ :=
    hkept.run (Location.ofOffset markup.toList) hstart (Event.scan (readable markup)).1
  dsimp only
  rw [hstopped, hkept.result_eq hbeside]
  generalize Reading.result _ _ _ _ = result
  cases result with
  | error error => exact .error ⟨rfl, _, _, hbeside.related⟩
  | ok _ => exact .ok ⟨_, _, hbeside.related⟩

end KeptBeside

end PageTemplate.Markup.Reading
