import PageTemplate.Proofs.Markup.EncodedText
import PageTemplate.Proofs.Markup.Stored
import PageTemplate.Template

/-! # Output

A document is written as a whole or not at all. Its markup, with the label of the encoding in every
XML declaration, is encoded before anything is passed on, so a sink that takes what it is given gets
all of the bytes, or none when the label, the encoding or a character stands in the way. The same
holds of a template that cannot be rendered.
-/

namespace PageTemplate

open Markup

namespace Markup

/-! ## Naming an encoding -/

/-- The kind with the label as the encoding that an XML declaration names. -/
def NodeKind.naming (label : String) : NodeKind → NodeKind
  | .declaration version _ standalone => .declaration version (some label) standalone
  | kind => kind

theorem NodeKind.write_naming (label : String) (isEmpty : Bool) (inner : String)
    (kind : NodeKind) : (kind.naming label).write none isEmpty inner =
      kind.write (some label) isEmpty inner := by
  cases kind <;> rfl

mutual
theorem Tree.write_map_naming (label : String) (tree : Tree) :
    (tree.map (NodeKind.naming label)).write none = tree.write (some label) := by
  match tree with
  | .node kind children =>
      unfold Tree.map Tree.write
      rw [NodeKind.write_naming, Tree.writeAll_mapAll_naming label children]
      cases children <;> rfl
theorem Tree.writeAll_mapAll_naming (label : String) (trees : List Tree) :
    Tree.writeAll none (Tree.mapAll (NodeKind.naming label) trees) =
      Tree.writeAll (some label) trees := by
  match trees with
  | [] => rfl
  | tree :: trees =>
      unfold Tree.mapAll Tree.writeAll
      rw [Tree.write_map_naming label tree, Tree.writeAll_mapAll_naming label trees]
end

namespace Document

variable {d : Document}

/-- The document in which every XML declaration names the label, if there is one. -/
def naming (d : Document) : Option String → Document
  | none => d
  | some label =>
    { d with nodes := d.nodes.map fun node => { node with kind := node.kind.naming label } }

theorem node_naming (d : Document) (label : String) (n : NodeId) :
    (d.naming (some label)).node n =
      { d.node n with kind := (d.kind n).naming label } := by
  unfold naming kind node
  by_cases hn : n < d.nodes.size
  · simp [hn]
  · simp [hn, NodeKind.naming]

theorem treeTo_naming (d : Document) (label : String) (fuel : Nat) (n : NodeId) :
    (d.naming (some label)).treeTo fuel n = (d.treeTo fuel n).map (NodeKind.naming label) := by
  induction fuel generalizing n with
  | zero =>
      unfold treeTo Tree.map kind
      rw [node_naming]
      rfl
  | succ fuel ih =>
      unfold treeTo Tree.map kind children
      rw [node_naming, Tree.mapAll_eq_map, List.map_map]
      exact congrArg (Tree.node _) (List.map_congr_left fun c _ => ih c)

/-- The markup with a label is that of the document whose declarations name the label. -/
theorem write_naming (d : Document) (label : Option String) :
    (d.naming label).write = d.writeLabelled label := by
  cases label with
  | none => rfl
  | some label =>
      have hsize : (d.naming (some label)).size = d.size := Array.size_map
      unfold write writeLabelled tree
      rw [hsize, treeTo_naming, Tree.write_map_naming]

end Document

/-! ## Labels -/

variable {table : String → Option Encoding} {label : Option String} {text : String}
  {bytes : List UInt8} {error : MarkupError}

/-- The encoding that a label names, without the blanks around it; without a label, UTF-8. -/
def labelled? (table : String → Option Encoding) : Option String → Option Encoding
  | none => some .utf8
  | some label => table (Text.trimmed label)

/-- What holds of the code pages of a table holds of the one that a label names. -/
theorem length_page_of_labelled? {name : String} {page : CodePage}
    (hpages : ∀ label name page, table label = some (.singleByte name page) → page.length ≤ 0x80)
    (h : labelled? table label = some (.singleByte name page)) : page.length ≤ 0x80 := by
  cases label with
  | none => cases h
  | some label => exact hpages (Text.trimmed label) name page h

/-- What a text is refused with under a label: the label is unknown, or its encoding refuses the
text. -/
inductive Refused (table : String → Option Encoding) (label : Option String) (text : String) :
    MarkupError → Prop
  | unknown {name : String} (hlabel : label = some name)
    (hname : table (Text.trimmed name) = none) :
    Refused table label text (.unknownEncoding name)
  | refused {encoding : Encoding} {error : MarkupError}
    (hlabel : labelled? table label = some encoding) (hrefuses : encoding.Refuses text error) :
    Refused table label text error

theorem encodeLabelled_cases (table : String → Option Encoding) (label : Option String)
    (text : String) :
    (∃ name, label = some name ∧ table (Text.trimmed name) = none ∧
      encodeLabelled label text table = .error (.unknownEncoding name)) ∨
    ∃ encoding, labelled? table label = some encoding ∧
      encodeLabelled label text table = encoding.encode text := by
  cases label with
  | none => exact .inr ⟨.utf8, rfl, rfl⟩
  | some name =>
      unfold encodeLabelled labelled?
      dsimp only
      cases htable : table (Text.trimmed name) with
      | none => exact .inl ⟨name, rfl, htable, rfl⟩
      | some encoding => exact .inr ⟨encoding, rfl, rfl⟩

theorem encodeLabelled_eq_error_iff :
    encodeLabelled label text table = .error error ↔ Refused table label text error := by
  rcases encodeLabelled_cases table label text with
    ⟨name, rfl, hname, heq⟩ | ⟨encoding, hlabel, heq⟩
  · rw [heq]
    constructor
    · rintro ⟨⟩
      exact .unknown rfl hname
    · intro h
      cases h with
      | unknown hlabel _ => rw [Option.some.inj hlabel]
      | refused hlabel _ => cases hname.symm.trans hlabel
  · rw [heq, Encoding.encode_eq_error_iff]
    refine ⟨.refused hlabel, fun h => ?_⟩
    cases h with
    | unknown heq hname =>
        subst heq
        cases hname.symm.trans hlabel
    | refused hlabel' hrefuses =>
        obtain rfl := Option.some.inj (hlabel.symm.trans hlabel')
        exact hrefuses

theorem encodeLabelled_eq_ok_iff : encodeLabelled label text table = .ok bytes ↔
    ∃ encoding, labelled? table label = some encoding ∧ encoding.Encodes text bytes := by
  rcases encodeLabelled_cases table label text with
    ⟨name, rfl, hname, heq⟩ | ⟨encoding, hlabel, heq⟩
  · rw [heq]
    refine ⟨nofun, ?_⟩
    rintro ⟨encoding, hlabel, -⟩
    cases hname.symm.trans hlabel
  · rw [heq, Encoding.encode_eq_ok_iff, hlabel]
    simp

/-- A text is refused when the label is unknown, or its encoding is never written, or it lacks a
character of the text. -/
theorem exists_refused_iff : (∃ error, Refused table label text error) ↔
    labelled? table label = none ∨ ∃ encoding, labelled? table label = some encoding ∧
      (encoding.hasEncoder = false ∨ ∃ c ∈ text.toList, encoding.code? c = none) := by
  constructor
  · rintro ⟨error, h⟩
    cases h with
    | unknown hlabel hname => exact .inl (hlabel ▸ hname)
    | refused hlabel hrefuses =>
        exact .inr ⟨_, hlabel, Encoding.exists_refuses_iff.mp ⟨error, hrefuses⟩⟩
  · rintro (hnone | ⟨encoding, hlabel, h⟩)
    · cases label with
      | none => cases hnone
      | some name => exact ⟨_, .unknown rfl hnone⟩
    · obtain ⟨error, hrefuses⟩ := Encoding.exists_refuses_iff.mpr h
      exact ⟨error, .refused hlabel hrefuses⟩

/-! ## Writing -/

/-- A sink that takes all that it is given. -/
structure Sink.TakesAll {σ : Type} (sink : Sink σ) : Prop where
  write_ok : ∀ bytes state, (sink.write bytes state).1 = .ok ()
  flush_ok : ∀ state, (sink.flush state).1 = .ok ()

end Markup

section

variable {σ : Type} {sink : Sink σ} {state : σ} {table : String → Option Encoding}

theorem writeTo_cases (hsink : sink.TakesAll) (d : Document) (label : Option String) :
    (∃ error, Refused table label (d.naming label).write error ∧
      d.writeTo label sink state table = (.error error, state)) ∨
    ∃ encoding bytes, labelled? table label = some encoding ∧
      encoding.Encodes (d.naming label).write bytes ∧
      d.writeTo label sink state table = (.ok (), (sink.write bytes state).2) := by
  rw [d.write_naming]
  unfold Document.writeTo
  cases hread : encodeLabelled label (d.writeLabelled label) table with
  | error error => exact .inl ⟨error, encodeLabelled_eq_error_iff.mp hread, rfl⟩
  | ok bytes =>
      obtain ⟨encoding, hlabel, hencodes⟩ := encodeLabelled_eq_ok_iff.mp hread
      refine .inr ⟨encoding, bytes, hlabel, hencodes, ?_⟩
      dsimp only
      rw [hsink.write_ok]
      rfl

section

variable (hsink : sink.TakesAll) {d : Document} {label : Option String}

include hsink

theorem refused_of_writeTo {error : MarkupError}
    (h : (d.writeTo label sink state table).1 = .error error) :
    d.writeTo label sink state table = (.error error, state) ∧
      Refused table label (d.naming label).write error := by
  rcases writeTo_cases hsink d label with ⟨error, hrefused, heq⟩ | ⟨_, _, _, _, heq⟩
  · rw [heq] at h ⊢
    cases h
    exact ⟨rfl, hrefused⟩
  · rw [heq] at h
    cases h

theorem encodes_of_writeTo (h : (d.writeTo label sink state table).1 = .ok ()) :
    ∃ encoding bytes, labelled? table label = some encoding ∧
      encoding.Encodes (d.naming label).write bytes ∧
      d.writeTo label sink state table = (.ok (), (sink.write bytes state).2) := by
  rcases writeTo_cases hsink d label with ⟨_, _, heq⟩ | h'
  · rw [heq] at h
    cases h
  · exact h'

theorem exists_writeTo_error_iff :
    (∃ error, (d.writeTo label sink state table).1 = .error error) ↔
      ∃ error, Refused table label (d.naming label).write error := by
  refine ⟨fun ⟨error, h⟩ => ⟨error, (refused_of_writeTo hsink h).2⟩, fun ⟨error, hrefused⟩ => ?_⟩
  rcases writeTo_cases hsink d label with ⟨error, _, heq⟩ | ⟨_, _, hlabel, hencodes, _⟩
  · exact ⟨error, congrArg Prod.fst heq⟩
  · have hok := encodeLabelled_eq_ok_iff.mpr ⟨_, hlabel, hencodes⟩
    cases hok.symm.trans (encodeLabelled_eq_error_iff.mpr hrefused)

/-- A template that was rendered is written as the document that came out. -/
theorem renderTo_of_render {template : Template} {model : Data} {value : Value}
    (hmodel : model.toValue = .ok value) (houtput : (template.render value).output = .ok d) :
    let written := d.writeTo (some template.settings.outputEncoding) sink state table
    (∀ error, written.1 = .error error →
      template.renderTo model sink state table = (.error (.unwritable error), state)) ∧
    (written.1 = .ok () →
      template.renderTo model sink state table = (.ok (), (sink.flush written.2).2)) := by
  intro written
  unfold Template.renderTo
  rw [hmodel]
  dsimp only
  rw [houtput]
  dsimp only
  refine ⟨fun error herror => ?_, fun hok => ?_⟩
  · rw [(refused_of_writeTo hsink herror).1]
  · obtain ⟨-, bytes, -, -, heq⟩ := encodes_of_writeTo hsink hok
    rw [show written = _ from heq, heq]
    dsimp only
    rw [hsink.flush_ok]
    rfl

end

/-- Output is all or nothing, whatever labels there are, as long as each of them names UTF-8, a code
page or an encoding that is never written. A document is written to a sink that takes everything
unless the label is unknown, its encoding is never written or it lacks a character of the markup;
the error then names the label, the encoding or the first such character, and the sink is not
touched. Otherwise the sink gets the markup, in which every XML declaration names the label,
character by character, and reading the bytes gives it back. A template that cannot be rendered does
not touch the sink either. -/
theorem output_all_or_nothing (hsink : sink.TakesAll)
    (hpages : ∀ label name page, table label = some (.singleByte name page) → page.length ≤ 0x80)
    (state : σ) :
    (∀ (d : Document) (label : Option String),
      let text := (d.naming label).write
      let result := d.writeTo label sink state table
      ((∃ error, result.1 = .error error) ↔
        labelled? table label = none ∨ ∃ encoding, labelled? table label = some encoding ∧
          (encoding.hasEncoder = false ∨ ∃ c ∈ text.toList, encoding.code? c = none)) ∧
      (∀ error, result.1 = .error error → result.2 = state ∧ Refused table label text error) ∧
      (result.1 = .ok () → ∃ encoding bytes, labelled? table label = some encoding ∧
        encoding.Encodes text bytes ∧ result.2 = (sink.write bytes state).2 ∧
        encoding.decode? bytes = some text)) ∧
    ∀ (template : Template) (model : Data),
      let result := template.renderTo model sink state table
      (∀ error, model.toValue = .error error → result = (.error (.model error), state)) ∧
      ∀ value, model.toValue = .ok value →
        (∀ error, (template.render value).output = .error error → result = (.error error, state)) ∧
        ∀ d, (template.render value).output = .ok d →
          let written := d.writeTo (some template.settings.outputEncoding) sink state table
          (∀ error, written.1 = .error error → result = (.error (.unwritable error), state)) ∧
          (written.1 = .ok () → result = (.ok (), (sink.flush written.2).2)) := by
  refine ⟨fun d label => ⟨?_, fun error h => ?_, fun h => ?_⟩, fun template model =>
    ⟨fun error hmodel => ?_, fun value hmodel => ⟨fun error houtput => ?_, fun d houtput => ?_⟩⟩⟩
  · exact (exists_writeTo_error_iff hsink).trans exists_refused_iff
  · obtain ⟨heq, hrefused⟩ := refused_of_writeTo hsink h
    exact ⟨congrArg Prod.snd heq, hrefused⟩
  · obtain ⟨encoding, bytes, hlabel, hencodes, heq⟩ := encodes_of_writeTo hsink h
    refine ⟨encoding, bytes, hlabel, hencodes, congrArg Prod.snd heq, hencodes.decode?_eq ?_⟩
    rintro name page rfl
    exact length_page_of_labelled? hpages hlabel
  · unfold Template.renderTo
    rw [hmodel]
  · unfold Template.renderTo
    rw [hmodel]
    dsimp only
    rw [houtput]
  · exact renderTo_of_render hsink hmodel houtput

end

/-- A sink that keeps the bytes that it is given. -/
def collecting : Sink (List UInt8) where
  write bytes state := (.ok (), state ++ bytes)
  flush state := (.ok (), state)

/-- A document with an XML declaration and a letter that some code pages lack. -/
def umlautPage : Document where
  nodes := #[{ children := [1, 2] },
    { kind := .declaration "1.0" (some "utf-8") none, parent := some 0 },
    { kind := .element (.named "p"), parent := some 0, children := [3] },
    { kind := .text "\u00FC", parent := some 2 }]

/-- It is written in Latin-1, which the declaration then names, and refused in KOI8-R. -/
theorem output_all_or_nothing_umlaut :
    collecting.TakesAll ∧
    (∀ label name page, Encoding.ofLabel? label = some (.singleByte name page) →
      page.length ≤ 0x80) ∧
    (∃ encoding, labelled? Encoding.ofLabel? (some "latin1") = some encoding ∧
      encoding.decode? (umlautPage.writeTo (some "latin1") collecting []).2 =
        some "<?xml version=\"1.0\" encoding=\"latin1\"?><p>\u00FC</p>") ∧
    umlautPage.writeTo (some "koi8-r") collecting [] =
      (.error (.unencodable "KOI8-R" "'\u00FC' has no mapping"), []) := by
  have htakes : collecting.TakesAll := ⟨fun _ _ => rfl, fun _ => rfl⟩
  have hpages : ∀ label name page, Encoding.ofLabel? label = some (.singleByte name page) →
      page.length ≤ 0x80 := fun _ _ _ => Encoding.length_page_of_ofLabel?
  obtain ⟨hwrite, -⟩ := output_all_or_nothing htakes hpages []
  refine ⟨htakes, hpages, ?_, ?_⟩
  · obtain ⟨encoding, bytes, hlabel, -, hbytes, hread⟩ :=
      (hwrite umlautPage (some "latin1")).2.2 (by decide +kernel)
    have htext : (umlautPage.naming (some "latin1")).write =
        "<?xml version=\"1.0\" encoding=\"latin1\"?><p>\u00FC</p>" := by decide +kernel
    exact ⟨encoding, hlabel, by rw [hbytes, ← htext]; exact hread⟩
  · have herror : (umlautPage.writeTo (some "koi8-r") collecting []).1 =
        .error (.unencodable "KOI8-R" "'\u00FC' has no mapping") := by decide +kernel
    exact Prod.ext herror ((hwrite umlautPage (some "koi8-r")).2.1 _ herror).1

end PageTemplate
