import Mathlib.Data.List.Forall2
import PageTemplate.Markup.Encoding
import PageTemplate.Proofs.Ensures

/-! # Text in an encoding

An encoding gives some characters a code of one or more bytes. A text is encoded character by
character and refused at the first one without a code, and the bytes of a text that was encoded are
read as this text.
-/

namespace PageTemplate.Markup

/-! ## Code pages -/

namespace CodePage

variable {page : CodePage} {c : Char} {cs : List Char} {byte : UInt8} {bytes : List UInt8}

/-- The character of a byte, if the code page has it. -/
def char? (page : CodePage) (byte : UInt8) : Option Char :=
  if byte.toNat < 0x80 then some (Char.ofNat byte.toNat)
  else (page[byte.toNat - 0x80]?).map Char.ofNat

/-- A page of at most 128 characters reads what it writes. -/
theorem char?_of_byte? (hpage : page.length ≤ 0x80) (h : page.byte? c = some byte) :
    page.char? byte = some c := by
  unfold byte? at h
  unfold char?
  split at h
  next hascii =>
    obtain rfl := Option.some.inj h
    have hnat : c.toNat.toUInt8.toNat = c.toNat := by simp; omega
    rw [hnat, if_pos hascii, Char.ofNat_toNat]
  next =>
    obtain ⟨index, hindex, rfl⟩ := Option.map_eq_some_iff.mp h
    obtain ⟨hlt, hfound, -⟩ := List.findIdx?_eq_some_iff_getElem.mp hindex
    have hnat : (0x80 + index).toUInt8.toNat = 0x80 + index := by simp; omega
    rw [hnat, if_neg (Nat.not_lt.mpr (Nat.le_add_right _ _)), Nat.add_sub_cancel_left,
      List.getElem?_eq_getElem hlt, Option.map_some, eq_of_beq hfound, Char.ofNat_toNat]

end CodePage

namespace Encoding

variable {page : CodePage} {name text : String} {c : Char} {cs : List Char} {bytes : List UInt8}
  {encoding : Encoding}

theorem encodeWith_eq_ok_iff :
    encodeWith page cs = .ok bytes ↔
      List.Forall₂ (fun c byte => page.byte? c = some byte) cs bytes := by
  induction cs generalizing bytes with
  | nil => cases bytes <;> simp [encodeWith]
  | cons c cs ih =>
      unfold encodeWith
      cases hbyte : page.byte? c with
      | none =>
          refine ⟨nofun, fun h => ?_⟩
          cases h with
          | cons hhead _ => cases hbyte.symm.trans hhead
      | some byte =>
          cases bytes with
          | nil => cases encodeWith page cs <;> simp [Except.map]
          | cons first bytes =>
              rw [List.forall₂_cons, ← ih, hbyte]
              cases encodeWith page cs <;> simp [Except.map]

/-- A text is refused for the first character that the page lacks. -/
theorem encodeWith_eq_error_iff :
    encodeWith page cs = .error c ↔ ∃ before after, cs = before ++ c :: after ∧
      (∀ b ∈ before, (page.byte? b).isSome) ∧ page.byte? c = none := by
  induction cs with
  | nil => simp [encodeWith]
  | cons first cs ih =>
      unfold encodeWith
      cases hbyte : page.byte? first with
      | none =>
          refine ⟨fun h => ⟨[], cs, ?_, nofun, ?_⟩, ?_⟩
          · rw [Except.error.inj h, List.nil_append]
          · exact Except.error.inj h ▸ hbyte
          · rintro ⟨_ | ⟨b, before⟩, after, hcs, hbefore, -⟩
            · exact congrArg Except.error (List.cons.inj hcs).1
            · have hfirst := hbefore b List.mem_cons_self
              rw [← (List.cons.inj hcs).1, hbyte] at hfirst
              cases hfirst
      | some byte =>
          have hmap : (encodeWith page cs).map (byte :: ·) = .error c ↔
              encodeWith page cs = .error c := by
            cases encodeWith page cs <;> simp [Except.map]
          rw [hmap, ih]
          constructor
          · rintro ⟨before, after, rfl, hbefore, hc⟩
            exact ⟨first :: before, after, rfl,
              List.forall_mem_cons.mpr ⟨Option.isSome_of_eq_some hbyte, hbefore⟩, hc⟩
          · rintro ⟨_ | ⟨b, before⟩, after, hcs, hbefore, hc⟩
            · rw [← (List.cons.inj hcs).1, hbyte] at hc
              cases hc
            · exact ⟨before, after, (List.cons.inj hcs).2,
                (List.forall_mem_cons.mp hbefore).2, hc⟩

theorem decodeWith_encodeWith (hpage : page.length ≤ 0x80)
    (h : List.Forall₂ (fun c byte => page.byte? c = some byte) cs bytes) :
    bytes.mapM page.char? = some cs := by
  induction h with
  | nil => rfl
  | cons hhead _ ih =>
      rw [List.mapM_cons, CodePage.char?_of_byte? hpage hhead, ih]
      rfl

end Encoding

/-! ## UTF-8 -/

theorem toList_toByteArray (bytes : ByteArray) : bytes.toList = bytes.data.toList := by
  have hloop : ∀ i read, ByteArray.toList.loop bytes i read =
      read.reverse ++ bytes.data.toList.drop i := by
    intro i read
    induction i, read using ByteArray.toList.loop.induct bytes with
    | case1 i read hlt ih =>
        have hlt' : i < bytes.data.toList.length := by simpa using hlt
        have hget : bytes.get! i = bytes.data.toList[i] := by
          rw [Array.getElem_toList]
          exact getElem!_pos bytes.data i hlt
        rw [ByteArray.toList.loop.eq_def, if_pos hlt, ih, List.drop_eq_getElem_cons hlt', hget,
          List.reverse_cons, List.append_assoc, List.singleton_append]
    | case2 i read hend =>
        rw [ByteArray.toList.loop.eq_def, if_neg hend, List.drop_eq_nil_of_le (by simpa using hend),
          List.append_nil]
  exact hloop 0 []

theorem toList_toUTF8 (text : String) :
    text.toUTF8.toList = text.toList.flatMap String.utf8EncodeChar := by
  rw [toList_toByteArray, String.toUTF8_eq_toByteArray, ← String.utf8Encode_toList]
  exact List.toList_data_toByteArray

theorem fromUTF8?_toList_toUTF8 (text : String) :
    String.fromUTF8? ⟨text.toUTF8.toList.toArray⟩ = some text := by
  rw [toList_toByteArray]
  exact dif_pos text.isValidUTF8

/-! ## Encodings -/

namespace Encoding

variable {encoding : Encoding} {text : String} {bytes : List UInt8} {error : MarkupError}

/-- Text can be written in the encoding. -/
def hasEncoder : Encoding → Bool
  | .readOnly _ => false
  | _ => true

/-- The code of a character, if the encoding has one. -/
def code? : Encoding → Char → Option (List UInt8)
  | .utf8, c => some (String.utf8EncodeChar c)
  | .singleByte _ page, c => (page.byte? c).map ([·])
  | .readOnly _, _ => none

/-- The text that bytes stand for. -/
def decode? : Encoding → List UInt8 → Option String
  | .utf8, bytes => String.fromUTF8? ⟨bytes.toArray⟩
  | .singleByte _ page, bytes => (bytes.mapM page.char?).map String.ofList
  | .readOnly _, _ => none

/-- The bytes are the codes of the characters of the text, one after the other. -/
def Encodes (encoding : Encoding) (text : String) (bytes : List UInt8) : Prop :=
  encoding.hasEncoder = true ∧ ∃ codes, bytes = codes.flatten ∧
    List.Forall₂ (fun c code => encoding.code? c = some code) text.toList codes

/-- What a text is refused with: the encoding is never written, or the error names the first
character that has no code. -/
inductive Refuses : Encoding → String → MarkupError → Prop
  | noEncoder (name text : String) :
    Refuses (.readOnly name) text (.unencodable name "no encoder for this encoding")
  | lacking {name text : String} {page : CodePage} {before after : List Char} {c : Char}
    (htext : text.toList = before ++ c :: after) (hbefore : ∀ b ∈ before, (page.byte? b).isSome)
    (hc : page.byte? c = none) :
    Refuses (.singleByte name page) text
      (.unencodable name s!"'{String.singleton c}' has no mapping")

theorem encode_eq_error_iff :
    encoding.encode text = .error error ↔ encoding.Refuses text error := by
  cases encoding with
  | utf8 => exact ⟨nofun, nofun⟩
  | readOnly name =>
      constructor
      · rintro ⟨⟩
        exact .noEncoder name text
      · rintro ⟨⟩
        rfl
  | singleByte name page =>
      change (encodeWith page text.toList).mapError _ = _ ↔ _
      constructor
      · intro h
        cases hread : encodeWith page text.toList with
        | ok bytes =>
            rw [hread] at h
            cases h
        | error c =>
            rw [hread] at h
            obtain ⟨before, after, htext, hbefore, hc⟩ := encodeWith_eq_error_iff.mp hread
            exact Except.error.inj h ▸ .lacking htext hbefore hc
      · rintro ⟨⟩
        next before after c hbefore hc htext =>
          rw [encodeWith_eq_error_iff.mpr ⟨before, after, htext, hbefore, hc⟩]
          rfl

/-- In a code page every code is one byte. -/
theorem exists_codes_iff {page : CodePage} {cs : List Char} :
    (∃ codes, bytes = codes.flatten ∧
      List.Forall₂ (fun c code => (page.byte? c).map ([·]) = some code) cs codes) ↔
      List.Forall₂ (fun c byte => page.byte? c = some byte) cs bytes := by
  constructor
  · rintro ⟨codes, rfl, h⟩
    induction h with
    | nil => exact .nil
    | cons hhead _ ih =>
        obtain ⟨byte, hbyte, rfl⟩ := Option.map_eq_some_iff.mp hhead
        exact .cons hbyte ih
  · intro h
    induction h with
    | nil => exact ⟨[], rfl, .nil⟩
    | @cons c byte cs bytes hhead _ ih =>
        obtain ⟨codes, rfl, hcodes⟩ := ih
        exact ⟨[byte] :: codes, rfl, .cons (by rw [hhead, Option.map_some]) hcodes⟩

theorem encode_eq_ok_iff : encoding.encode text = .ok bytes ↔ encoding.Encodes text bytes := by
  cases encoding with
  | utf8 =>
      have hcodes : ∀ codes : List (List UInt8),
          List.Forall₂ (fun c code => code? utf8 c = some code) text.toList codes ↔
            text.toList.map String.utf8EncodeChar = codes := by
        intro codes
        rw [← List.forall₂_eq_eq_eq, List.forall₂_map_left_iff]
        simp only [code?, Option.some.injEq]
      have hbytes : utf8.encode text = .ok (text.toList.map String.utf8EncodeChar).flatten := by
        rw [← List.flatMap_def, ← toList_toUTF8]
        rfl
      rw [hbytes, Except.ok.injEq]
      constructor
      · rintro rfl
        exact ⟨rfl, _, rfl, (hcodes _).mpr rfl⟩
      · rintro ⟨-, codes, rfl, h⟩
        rw [(hcodes codes).mp h]
  | readOnly name => exact ⟨nofun, fun h => absurd h.1 Bool.false_ne_true⟩
  | singleByte name page =>
      have hok : (singleByte name page).encode text = .ok bytes ↔
          encodeWith page text.toList = .ok bytes := by
        change (encodeWith page text.toList).mapError _ = _ ↔ _
        cases encodeWith page text.toList <;> simp [Except.mapError]
      rw [hok, encodeWith_eq_ok_iff, ← exists_codes_iff]
      exact (and_iff_right rfl).symm

theorem Encodes.exists_code (h : encoding.Encodes text bytes) {c : Char} (hc : c ∈ text.toList) :
    ∃ code, encoding.code? c = some code := by
  obtain ⟨-, codes, -, hcodes⟩ := h
  obtain ⟨code, -, hcode⟩ := exists_of_mem_right hcodes.flip hc
  exact ⟨code, hcode⟩

/-- A text is refused when the encoding is never written, or lacks a character of the text. -/
theorem exists_refuses_iff : (∃ error, encoding.Refuses text error) ↔
    encoding.hasEncoder = false ∨ ∃ c ∈ text.toList, encoding.code? c = none := by
  constructor
  · rintro ⟨_, hrefuses⟩
    cases hrefuses with
    | noEncoder name text => exact .inl rfl
    | @lacking _ _ page before after c htext _ hc =>
        exact .inr ⟨c, by simp [htext], Option.map_eq_none_iff.mpr hc⟩
  · intro h
    cases hread : encoding.encode text with
    | error error => exact ⟨error, encode_eq_error_iff.mp hread⟩
    | ok bytes =>
        have hencodes := encode_eq_ok_iff.mp hread
        rcases h with hnone | ⟨c, hmem, hc⟩
        · cases hnone.symm.trans hencodes.1
        · obtain ⟨code, hcode⟩ := hencodes.exists_code hmem
          cases hc.symm.trans hcode

/-- What was encoded is read as the text that it was. -/
theorem Encodes.decode?_eq (h : encoding.Encodes text bytes)
    (hpage : ∀ name page, encoding = .singleByte name page → page.length ≤ 0x80) :
    encoding.decode? bytes = some text := by
  cases encoding with
  | utf8 =>
      rw [← Except.ok.inj (encode_eq_ok_iff.mpr h)]
      exact fromUTF8?_toList_toUTF8 text
  | readOnly name => exact absurd h.1 Bool.false_ne_true
  | singleByte name page =>
      obtain ⟨-, hcodes⟩ := h
      have hread := decodeWith_encodeWith (hpage name page rfl) (exists_codes_iff.mp hcodes)
      change (bytes.mapM page.char?).map String.ofList = some text
      rw [hread, Option.map_some, String.ofList_toList]

/-- The code pages of the known labels have a character for each byte from 128 on, and no more. -/
theorem length_page_of_ofLabel? {label name : String} {page : CodePage}
    (h : ofLabel? label = some (.singleByte name page)) : page.length ≤ 0x80 := by
  have hpages : ∀ entry ∈ labels, (match entry.1 with
      | .singleByte _ page => page.length
      | _ => 0) ≤ 0x80 := by decide +kernel
  obtain ⟨⟨encoding, names⟩, hmem, hfound⟩ := List.exists_of_findSome?_eq_some h
  dsimp only at hfound
  split at hfound
  · obtain rfl := Option.some.inj hfound
    exact hpages _ hmem
  · cases hfound

end Encoding

end PageTemplate.Markup
