import PageTemplate.Markup.Event
import PageTemplate.Proofs.Text.Cutting

/-! # Scanning loses nothing

An event has the text that it was read from as its source, and it has at least one character.
The events of a text are therefore the first event and the events of what follows it.
-/

namespace PageTemplate.Markup.Event

open Text

variable {s tag content after rest : List Char} {event : Event}

theorem eq_append_of_cutTag {quote : Option Char} (h : cutTag quote s = .ok (tag, after)) :
    s = tag ++ '>' :: after := by
  induction s generalizing quote tag with
  | nil => cases quote <;> cases h
  | cons c rest ih =>
      cases quote with
      | some q =>
          unfold cutTag at h
          simp only [bind, Except.bind] at h
          split at h
          · cases h
          next cut hcut =>
            cases h
            rw [ih hcut, List.cons_append]
      | none =>
          unfold cutTag at h
          simp only [bind, Except.bind] at h
          split at h
          next hc =>
            cases h
            rw [hc, List.nil_append]
          next =>
            split at h
            · cases h
            next cut hcut =>
              cases h
              rw [ih hcut, List.cons_append]

/-- Only a closing bracket closes a document type. -/
theorem eq_of_next_eq_none {state : DoctypeState} {c : Char} (h : state.next c rest = none) :
    c = '>' := by
  unfold DoctypeState.next at h
  split at h
  all_goals grind

theorem eq_append_of_cutDoctype {state : DoctypeState}
    (h : cutDoctype state s = some (content, after)) : s = content ++ '>' :: after := by
  induction s generalizing state content with
  | nil => cases h
  | cons c rest ih =>
      unfold cutDoctype at h
      split at h
      next hnext =>
        cases h
        rw [eq_of_next_eq_none hnext, List.nil_append]
      next state' _ =>
        obtain ⟨⟨content', after'⟩, hcut, heq⟩ := Option.map_eq_some_iff.mp h
        obtain ⟨rfl, rfl⟩ := Prod.mk.inj heq
        rw [ih hcut, List.cons_append]

/-- An event is read from a text: its source and what is left make up the text, and the source
is not empty. -/
structure ReadFrom (s : List Char) (event : Event) (rest : List Char) : Prop where
  eq_append : s = event.source ++ rest
  source_ne_nil : event.source ≠ []

theorem readFrom_of_readMarked (h : readMarked s = .ok (event, rest)) :
    ReadFrom ('<' :: '!' :: s) event rest := by
  unfold readMarked at h
  split at h
  · split at h
    next hcut =>
      obtain ⟨rfl, rfl⟩ := Prod.mk.inj (Except.ok.inj h)
      obtain ⟨inner, hstrip, hcut⟩ := Option.bind_eq_some_iff.mp hcut
      rw [eq_append_of_strip? hstrip, eq_append_of_cutAt? hcut]
      constructor <;>
      · unfold source
        simp
    next => contradiction
  · split at h
    next hcut =>
      obtain ⟨rfl, rfl⟩ := Prod.mk.inj (Except.ok.inj h)
      obtain ⟨inner, hstrip, hcut⟩ := Option.bind_eq_some_iff.mp hcut
      rw [eq_append_of_strip? hstrip, eq_append_of_cutAt? hcut]
      constructor <;>
      · unfold source
        simp
    next => contradiction
  · split at h
    · split at h
      · contradiction
      next whole after hcut =>
        dsimp only at h
        split at h
        · contradiction
        · split at h
          · contradiction
          · obtain ⟨rfl, rfl⟩ := Prod.mk.inj (Except.ok.inj h)
            rw [eq_append_of_cutDoctype hcut]
            constructor <;>
            · unfold source
              simp
    · contradiction
  · contradiction

theorem readFrom_of_readInstruction (h : readInstruction s = .ok (event, rest)) :
    ReadFrom ('<' :: '?' :: s) event rest := by
  unfold readInstruction at h
  split at h
  · contradiction
  · split at h
    next content after hcut =>
      obtain ⟨hevent, rfl⟩ := Prod.mk.inj (Except.ok.inj h)
      rw [eq_append_of_cutAt? hcut, ← hevent]
      constructor <;> split <;>
      · unfold source
        simp
    next => split at h <;> contradiction

/-- Reading loses nothing of a text, and always gets ahead in it. -/
theorem readFrom_of_read (h : read s = .ok (event, rest)) (hs : s ≠ []) :
    ReadFrom s event rest := by
  unfold read at h
  split at h
  · exact readFrom_of_readMarked h
  · exact readFrom_of_readInstruction h
  · simp only [bind, Except.bind] at h
    split at h
    · contradiction
    next cut hcut =>
      obtain ⟨rfl, rfl⟩ := Prod.mk.inj (Except.ok.inj h)
      rw [eq_append_of_cutTag hcut]
      constructor <;>
      · unfold source
        simp
  · simp only [bind, Except.bind] at h
    split at h
    · contradiction
    next cut hcut =>
      rw [eq_append_of_cutTag hcut]
      split at h
      next hlast =>
        obtain ⟨front, hfront⟩ := List.getLast?_eq_some_iff.mp hlast
        obtain ⟨rfl, rfl⟩ := Prod.mk.inj (Except.ok.inj h)
        constructor <;>
        · unfold source
          simp [hfront]
      next =>
        obtain ⟨rfl, rfl⟩ := Prod.mk.inj (Except.ok.inj h)
        constructor <;>
        · unfold source
          simp
  next rest' =>
    split at h
    next after hdrop =>
      obtain ⟨rfl, rfl⟩ := Prod.mk.inj (Except.ok.inj h)
      have hrest := List.takeWhile_append_dropWhile (p := isReferenceChar) (l := rest')
      rw [hdrop] at hrest
      constructor <;>
      · unfold source
        simp [hrest]
    next => contradiction
  next _ _ _ hmarkup hreference =>
    obtain ⟨rfl, rfl⟩ := Prod.mk.inj (Except.ok.inj h)
    refine ⟨(List.takeWhile_append_dropWhile).symm, ?_⟩
    cases s with
    | nil => contradiction
    | cons c s =>
        have hc : isTextChar c := by
          have hbracket : c ≠ '<' := fun hc => hmarkup s (by rw [hc])
          have hampersand : c ≠ '&' := fun hc => hreference s (by rw [hc])
          simp [isTextChar, hbracket, hampersand]
        unfold source
        simp [hc]

theorem length_lt_of_read (h : read s = .ok (event, rest)) (hs : s ≠ []) :
    rest.length < s.length := by
  have hread := readFrom_of_read h hs
  have hpos := List.length_pos_iff.mpr hread.source_ne_nil
  rw [hread.eq_append, List.length_append]
  omega

/-! ## Tags and other markup -/

/-- The event is a start tag, an empty tag or an end tag. -/
def isTag : Event → Bool
  | startTag _ | emptyTag _ | endTag _ => true
  | _ => false

/-- The event is a comment, a CDATA section or a document type. -/
def isMarked : Event → Bool
  | comment _ | cdata _ | doctype _ _ => true
  | _ => false

/-- The event is a processing instruction or the XML declaration. -/
def isInstruction : Event → Bool
  | instruction _ | declaration _ => true
  | _ => false

theorem isMarked_of_readMarked (h : readMarked s = .ok (event, rest)) : event.isMarked := by
  unfold readMarked at h
  split at h
  · split at h
    next => exact (Prod.mk.inj (Except.ok.inj h)).1 ▸ rfl
    next => contradiction
  · split at h
    next => exact (Prod.mk.inj (Except.ok.inj h)).1 ▸ rfl
    next => contradiction
  · split at h
    · split at h
      · contradiction
      · dsimp only at h
        split at h
        · contradiction
        · split at h
          · contradiction
          · exact (Prod.mk.inj (Except.ok.inj h)).1 ▸ rfl
    · contradiction
  · contradiction

theorem isInstruction_of_readInstruction (h : readInstruction s = .ok (event, rest)) :
    event.isInstruction := by
  unfold readInstruction at h
  split at h
  · contradiction
  · split at h
    · rw [← (Prod.mk.inj (Except.ok.inj h)).1]
      split <;> rfl
    · split at h <;> contradiction

/-- Where an event comes from can be told by what it is. -/
theorem exists_of_read (h : read s = .ok (event, rest)) :
    (event.isMarked → ∃ inner, readMarked inner = .ok (event, rest)) ∧
      (event.isInstruction → ∃ inner, readInstruction inner = .ok (event, rest)) := by
  unfold read at h
  split at h
  next inner =>
    refine ⟨fun _ => ⟨inner, h⟩, fun hinstruction => ?_⟩
    have hmarked := isMarked_of_readMarked h
    cases event <;> simp [isMarked, isInstruction] at hmarked hinstruction
  next inner =>
    refine ⟨fun hmarked => ?_, fun _ => ⟨inner, h⟩⟩
    have hinstruction := isInstruction_of_readInstruction h
    cases event <;> simp [isMarked, isInstruction] at hmarked hinstruction
  · simp only [bind, Except.bind] at h
    split at h
    · contradiction
    · obtain ⟨rfl, -⟩ := Prod.mk.inj (Except.ok.inj h)
      exact ⟨nofun, nofun⟩
  · simp only [bind, Except.bind] at h
    split at h
    · contradiction
    · split at h
      all_goals
        obtain ⟨rfl, -⟩ := Prod.mk.inj (Except.ok.inj h)
        exact ⟨nofun, nofun⟩
  · split at h
    · obtain ⟨rfl, -⟩ := Prod.mk.inj (Except.ok.inj h)
      exact ⟨nofun, nofun⟩
    · contradiction
  · obtain ⟨rfl, -⟩ := Prod.mk.inj (Except.ok.inj h)
    exact ⟨nofun, nofun⟩

/-! ## The first event and the others -/

/-- More fuel than characters makes no difference. -/
theorem scanTo_eq_scanTo {fuel fuel' : Nat} {s : List Char} (h : s.length ≤ fuel)
    (h' : s.length ≤ fuel') : scanTo fuel s = scanTo fuel' s := by
  induction fuel generalizing fuel' s with
  | zero =>
      obtain rfl := List.eq_nil_of_length_eq_zero (Nat.le_zero.mp h)
      cases fuel' <;> rfl
  | succ fuel ih =>
      cases s with
      | nil => cases fuel' <;> rfl
      | cons c s =>
          cases fuel' with
          | zero => simp at h'
          | succ fuel' =>
              unfold scanTo
              cases hread : read (c :: s) with
              | error fault => rfl
              | ok found =>
                  obtain ⟨event, rest⟩ := found
                  have hlength := length_lt_of_read hread (by simp)
                  simp only [List.length_cons] at h h' hlength
                  dsimp only
                  rw [ih (show rest.length ≤ fuel by omega) (show rest.length ≤ fuel' by omega)]

theorem scan_of_read (h : read s = .ok (event, rest)) (hs : s ≠ []) :
    scan s = (event :: (scan rest).1, (scan rest).2) := by
  cases s with
  | nil => contradiction
  | cons c s =>
      show scanTo (s.length + 1) (c :: s) = _
      have hlength := length_lt_of_read h hs
      unfold scanTo
      rw [h]
      dsimp only
      rw [scanTo_eq_scanTo (Nat.le_of_lt_succ hlength) (Nat.le_refl _)]
      rfl

theorem scan_of_read_error {fault : Fault} (h : read s = .error fault) (hs : s ≠ []) :
    scan s = ([], some fault) := by
  cases s with
  | nil => contradiction
  | cons c s =>
      show scanTo (s.length + 1) (c :: s) = _
      unfold scanTo
      rw [h]

/-- The events of a text that is read to its end make up the text, and none of them is empty. -/
theorem flatMap_source_of_scan {events : List Event} (h : scan s = (events, none)) :
    events.flatMap source = s ∧ ∀ event ∈ events, event.source ≠ [] := by
  induction hlength : s.length using Nat.strong_induction_on generalizing s events with
  | _ length ih =>
      by_cases hs : s = []
      · subst hs
        obtain rfl : [] = events := congrArg Prod.fst h
        exact ⟨rfl, List.forall_mem_nil _⟩
      · cases hread : read s with
        | error fault =>
            rw [scan_of_read_error hread hs] at h
            cases h
        | ok found =>
            obtain ⟨event, rest⟩ := found
            rw [scan_of_read hread hs] at h
            obtain ⟨rfl, hfault⟩ := Prod.mk.inj h
            have hfrom := readFrom_of_read hread hs
            obtain ⟨hrest, hnonempty⟩ := ih rest.length
              (hlength ▸ length_lt_of_read hread hs) (Prod.ext rfl hfault) rfl
            rw [List.flatMap_cons, hrest]
            exact ⟨hfrom.eq_append.symm, List.forall_mem_cons.mpr ⟨hfrom.source_ne_nil, hnonempty⟩⟩

end PageTemplate.Markup.Event
