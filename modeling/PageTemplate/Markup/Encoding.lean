import PageTemplate.Markup.CodePage
import PageTemplate.Markup.Writer
import PageTemplate.Text.Blank

/-! # Writing a document in an encoding

A document is written in the encoding that a label names, and its declarations then name that
label. Nothing is written when the label is unknown, when the encoding cannot be written, or when
it lacks a character of the document.
-/

namespace PageTemplate.Markup

/-- An encoding of text: UTF-8, a code page, or one that is never written. Other encodings that write
characters as several bytes, such as Shift_JIS, Big5 or GB18030, are not among these. -/
inductive Encoding where
  | utf8
  | singleByte (name : String) (page : CodePage)
  /-- An encoding that text is read from but never written in. -/
  | readOnly (name : String)
deriving DecidableEq, Repr

namespace Encoding

def windows1252 : Encoding := .singleByte "windows-1252" CodePage.windows1252
def windows1251 : Encoding := .singleByte "windows-1251" CodePage.windows1251
def koi8r : Encoding := .singleByte "KOI8-R" CodePage.koi8r
def iso885915 : Encoding := .singleByte "ISO-8859-15" CodePage.iso885915
def userDefined : Encoding := .singleByte "x-user-defined" CodePage.userDefined
def utf16le : Encoding := .readOnly "UTF-16LE"
def utf16be : Encoding := .readOnly "UTF-16BE"
def replacement : Encoding := .readOnly "replacement"

/-- The labels of nine of the forty encodings that have labels, in lower case. Here all other labels
are unknown. -/
def labels : List (Encoding × List String) := [
  (utf8, ["utf-8", "utf8", "unicode-1-1-utf-8", "unicode11utf8", "unicode20utf8", "x-unicode20utf8"]),
  (windows1252, ["windows-1252", "ansi_x3.4-1968", "ascii", "cp1252", "cp819", "csisolatin1",
    "ibm819", "iso-8859-1", "iso-ir-100", "iso8859-1", "iso88591", "iso_8859-1",
    "iso_8859-1:1987", "l1", "latin1", "us-ascii", "x-cp1252"]),
  (windows1251, ["windows-1251", "cp1251", "x-cp1251"]),
  (koi8r, ["koi8-r", "cskoi8r", "koi", "koi8", "koi8_r"]),
  (iso885915, ["iso-8859-15", "csisolatin9", "iso8859-15", "iso885915", "iso_8859-15", "l9"]),
  (userDefined, ["x-user-defined"]),
  (utf16le, ["utf-16", "utf-16le", "csunicode", "iso-10646-ucs-2", "ucs-2", "unicode",
    "unicodefeff"]),
  (utf16be, ["utf-16be", "unicodefffe"]),
  (replacement, ["replacement", "csiso2022kr", "hz-gb-2312", "iso-2022-cn", "iso-2022-cn-ext",
    "iso-2022-kr"])]

/-- The encoding that a label names. Labels ignore case. -/
def ofLabel? (label : String) : Option Encoding :=
  let name := label.toLower
  labels.findSome? fun (encoding, names) => if names.contains name then some encoding else none

/-- The bytes of a text in a code page, or the first character that the page lacks. -/
def encodeWith (page : CodePage) : List Char → Except Char (List UInt8)
  | [] => .ok []
  | c :: rest =>
    match page.byte? c with
    | none => .error c
    | some byte => (encodeWith page rest).map (byte :: ·)

/-- The bytes of a text. -/
def encode (encoding : Encoding) (text : String) : Except MarkupError (List UInt8) :=
  match encoding with
  | .utf8 => .ok text.toUTF8.toList
  | .readOnly name => .error (.unencodable name "no encoder for this encoding")
  | .singleByte name page =>
    (encodeWith page text.toList).mapError fun c =>
      .unencodable name s!"'{String.singleton c}' has no mapping"

end Encoding

/-- The bytes of a text in the encoding that a label names; without a label, in UTF-8. Blanks around
the label do not count. The table of labels may be another one than `Encoding.ofLabel?`. -/
def encodeLabelled (label : Option String) (text : String)
    (table : String → Option Encoding := Encoding.ofLabel?) : Except MarkupError (List UInt8) :=
  match label with
  | none => Encoding.utf8.encode text
  | some label =>
    match table (Text.trimmed label) with
    | none => .error (.unknownEncoding label)
    | some encoding => encoding.encode text

/-- Something that takes bytes: its state, how bytes are written to it, and how it is told to pass
on what it has. Both may fail with a message, and may have taken some bytes by then. -/
structure Sink (σ : Type) where
  write : List UInt8 → σ → Except String Unit × σ
  flush : σ → Except String Unit × σ

/-- Writes a document to a sink. The sink is not touched when the document cannot be encoded. -/
def Document.writeTo {σ : Type} (d : Document) (label : Option String) (sink : Sink σ)
    (state : σ) (table : String → Option Encoding := Encoding.ofLabel?) :
    Except MarkupError Unit × σ :=
  match encodeLabelled label (d.writeLabelled label) table with
  | .error error => (.error error, state)
  | .ok bytes =>
    let (result, state) := sink.write bytes state
    (result.mapError .refusedBySink, state)

end PageTemplate.Markup
