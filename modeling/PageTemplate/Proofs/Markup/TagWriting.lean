import PageTemplate.Proofs.Markup.Escaping

/-! # Tags read back

The tag of an element is a name and its attributes. Its text holds no closing bracket outside
quotes, and each attribute is read back under its name with its value.
-/

namespace PageTemplate.Markup

open Text

/-- The characters that a name may begin with. -/
def isNameStart (c : Char) : Bool :=
  let n := c.toNat
  c.isAlpha || c == ':' || c == '_' || (0xC0 ≤ n && n ≤ 0xD6) || (0xD8 ≤ n && n ≤ 0xF6) ||
    (0xF8 ≤ n && n ≤ 0x2FF) || (0x370 ≤ n && n ≤ 0x37D) || (0x37F ≤ n && n ≤ 0x1FFF) ||
    (0x200C ≤ n && n ≤ 0x200D) || (0x2070 ≤ n && n ≤ 0x218F) || (0x2C00 ≤ n && n ≤ 0x2FEF) ||
    (0x3001 ≤ n && n ≤ 0xD7FF) || (0xF900 ≤ n && n ≤ 0xFDCF) || (0xFDF0 ≤ n && n ≤ 0xFFFD) ||
    (0x10000 ≤ n && n ≤ 0xEFFFF)

/-- The characters that a name may go on with. -/
def isNamePart (c : Char) : Bool :=
  let n := c.toNat
  isNameStart c || c == '-' || c == '.' || c.isDigit || n == 0xB7 || (0x300 ≤ n && n ≤ 0x36F) ||
    (0x203F ≤ n && n ≤ 0x2040)

/-- The text is a name of XML. -/
def isXmlName : List Char → Bool
  | [] => false
  | c :: rest => isNameStart c && rest.all isNamePart

/-- The name is what is read from a name of XML. -/
structure QualifiedName.IsXml (name : QualifiedName) : Prop where
  xml : isXmlName name.text.toList
  parse_text : QualifiedName.parse name.text = name

/-! ## Characters of names -/

section

variable {name tag rest s : List Char} {c : Char}

theorem isNamePart_of_isNameStart (h : isNameStart c) : isNamePart c := by
  unfold isNamePart
  simp [h]

theorem isNamePart_of_mem (h : isXmlName name) (hc : c ∈ name) : isNamePart c := by
  cases name with
  | nil => cases hc
  | cons first name =>
      unfold isXmlName at h
      obtain ⟨hfirst, hname⟩ := Bool.and_eq_true_iff.mp h
      rcases List.mem_cons.mp hc with rfl | hc
      · exact isNamePart_of_isNameStart hfirst
      · exact List.all_eq_true.mp hname c hc

/-- A name holds none of the characters that structure a tag. -/
theorem ne_of_isNamePart (h : isNamePart c) {d : Char} (hd : isNamePart d = false) : c ≠ d := by
  rintro rfl
  rw [h] at hd
  cases hd

theorem not_isMarkupBlank_of_isNamePart (h : isNamePart c) : isMarkupBlank c = false := by
  simp only [isMarkupBlank, Bool.or_eq_false_iff, beq_eq_false_iff_ne]
  exact ⟨⟨⟨ne_of_isNamePart h (by decide), ne_of_isNamePart h (by decide)⟩,
    ne_of_isNamePart h (by decide)⟩, ne_of_isNamePart h (by decide)⟩

theorem isKeyChar_of_isNamePart (h : isNamePart c) : Tag.isKeyChar c := by
  simp [Tag.isKeyChar, not_isMarkupBlank_of_isNamePart h, ne_of_isNamePart h (d := '=') (by decide)]

/-! ## Cutting tags -/

/-- A stretch of a tag that neither ends the tag nor leaves a quote open. -/
def IsStretch (s : List Char) : Prop :=
  ∀ rest, Event.cutTag none (s ++ rest) =
    (Event.cutTag none rest).map fun (tag, after) => (s ++ tag, after)

theorem isStretch_nil : IsStretch [] := by
  intro rest
  rw [List.nil_append]
  cases Event.cutTag none rest <;> rfl

theorem IsStretch.append {s t : List Char} (hs : IsStretch s) (ht : IsStretch t) :
    IsStretch (s ++ t) := by
  intro rest
  rw [List.append_assoc, hs, ht]
  cases Event.cutTag none rest with
  | error fault => rfl
  | ok cut => simp [Except.map]

theorem isStretch_cons (hbracket : c ≠ '>') (hquote : c ≠ '"') (hapos : c ≠ '\'')
    (hs : IsStretch s) : IsStretch (c :: s) := by
  intro rest
  rw [List.cons_append, Event.cutTag, if_neg hbracket, if_neg (by simp [hquote, hapos]), hs]
  cases Event.cutTag none rest <;> rfl

theorem isStretch_of_isNamePart (h : ∀ c ∈ name, isNamePart c) : IsStretch name := by
  induction name with
  | nil => exact isStretch_nil
  | cons c name ih =>
      have hc := h c List.mem_cons_self
      exact isStretch_cons (ne_of_isNamePart hc (by decide)) (ne_of_isNamePart hc (by decide))
        (ne_of_isNamePart hc (by decide)) (ih fun c hc => h c (List.mem_cons_of_mem _ hc))

/-- Inside quotes every character but the quote is like any other. -/
theorem cutTag_append_quoted {q : Char} (h : q ∉ s) (rest : List Char) :
    Event.cutTag (some q) (s ++ q :: rest) =
      (Event.cutTag none rest).map fun (tag, after) => (s ++ q :: tag, after) := by
  induction s with
  | nil =>
      rw [List.nil_append, Event.cutTag, if_pos rfl]
      cases Event.cutTag none rest <;> rfl
  | cons c s ih =>
      obtain ⟨hc, hs⟩ : q ≠ c ∧ q ∉ s := by simpa using h
      rw [List.cons_append, Event.cutTag, if_neg (Ne.symm hc), ih hs]
      cases Event.cutTag none rest <;> rfl

theorem isStretch_quoted (h : '"' ∉ s) : IsStretch ('"' :: (s ++ ['"'])) := by
  intro rest
  have hquoted := cutTag_append_quoted h rest
  rw [List.cons_append, List.append_assoc, List.singleton_append, Event.cutTag,
    if_neg (by decide), if_pos (.inl rfl), hquoted]
  cases Event.cutTag none rest with
  | error fault => rfl
  | ok cut => simp [Except.map, bind, Except.bind, pure, Except.pure]

theorem cutTag_stretch (h : IsStretch tag) (rest : List Char) :
    Event.cutTag none (tag ++ '>' :: rest) = .ok (tag, rest) := by
  rw [h, Event.cutTag, if_pos rfl]
  simp [Except.map]

end

/-! ## Reading attributes -/

namespace Tag

/-- The text of an attribute, with a blank before it. -/
def RawAttribute.write (raw : RawAttribute) : List Char :=
  ' ' :: (raw.key ++ '=' :: '"' :: (raw.value ++ ['"']))

/-- The key could be a name, and no double quote ends the value. -/
structure RawAttribute.IsPlain (raw : RawAttribute) : Prop where
  key : ∀ c ∈ raw.key, isNamePart c
  key_ne_nil : raw.key ≠ []
  value : '"' ∉ raw.value

variable {raw : RawAttribute} {raws : List RawAttribute}
  {seen : Option (List (List Char × Nat))} {total : Nat}

theorem isStretch_write (h : raw.IsPlain) : IsStretch raw.write := by
  have hvalue := isStretch_quoted h.value
  have hequals : IsStretch ('=' :: '"' :: (raw.value ++ ['"'])) :=
    isStretch_cons (by decide) (by decide) (by decide) hvalue
  exact isStretch_cons (by decide) (by decide) (by decide)
    ((isStretch_of_isNamePart h.key).append hequals)

/-- An attribute is read up to its closing quote. -/
theorem readAttributes_write_append (h : raw.IsPlain)
    (hseen : seen.bind (·.lookup raw.key) = none) (total : Nat) (rest : List Char) :
    ∃ offset, readAttributes total seen (raw.write ++ rest) =
      let more := readAttributes total (seen.map ((raw.key, offset) :: ·)) rest
      (raw :: more.1, more.2) := by
  obtain ⟨key, value⟩ := raw
  obtain ⟨first, key, rfl⟩ := List.exists_cons_of_ne_nil h.key_ne_nil
  have hfirst := not_isMarkupBlank_of_isNamePart (h.key first List.mem_cons_self)
  have hkeyChar : ∀ c ∈ key, isKeyChar c := fun c hc =>
    isKeyChar_of_isNamePart (h.key c (List.mem_cons_of_mem _ hc))
  obtain ⟨body, hbody⟩ : ∃ body, body = value ++ '"' :: rest := ⟨_, rfl⟩
  have hwrite : RawAttribute.write ⟨first :: key, value⟩ ++ rest =
      ' ' :: (first :: key ++ '=' :: '"' :: body) := by
    unfold RawAttribute.write
    simp [hbody]
  have hsplit : splitAt? (· == '"') body = some (value, rest) := by
    rw [hbody]
    refine splitAt?_append (fun c hc => ?_) (by decide) rest
    simpa using fun heq : c = '"' => h.value (heq ▸ hc)
  have hblank : isMarkupBlank ' ' = true := by decide
  have hstart : (' ' :: (first :: key ++ '=' :: '"' :: body)).dropWhile isMarkupBlank =
      first :: (key ++ '=' :: '"' :: body) := by
    simp [hblank, hfirst]
  have htake : (key ++ '=' :: '"' :: body).takeWhile isKeyChar = key := by
    rw [List.takeWhile_append_of_pos hkeyChar]
    simp [isKeyChar]
  have hequals : ((key ++ '=' :: '"' :: body).dropWhile isKeyChar).dropWhile isMarkupBlank =
      '=' :: '"' :: body := by
    rw [List.dropWhile_append_of_pos hkeyChar]
    simp [isKeyChar, isMarkupBlank]
  have hquote : ('"' :: body).dropWhile isMarkupBlank = '"' :: body := by
    simp [isMarkupBlank]
  refine ⟨total - byteLength (first :: (key ++ '=' :: '"' :: body)), ?_⟩
  rw [hwrite, readAttributes]
  split
  next heq => exact absurd (hstart.symm.trans heq) (by simp)
  next first' rest' heq =>
    obtain ⟨rfl, rfl⟩ := List.cons.inj (hstart.symm.trans heq)
    split
    next before heq =>
      obtain ⟨-, rfl⟩ := List.cons.inj (hequals.symm.trans heq)
      dsimp only
      rw [htake, hseen]
      dsimp only
      split
      next heq => exact absurd (hquote.symm.trans heq) (by simp)
      next quote body' heq =>
        obtain ⟨rfl, rfl⟩ := List.cons.inj (hquote.symm.trans heq)
        rw [if_pos (.inl rfl)]
        split
        next heq => exact absurd (hsplit.symm.trans heq) (by simp)
        next value' after heq =>
          obtain ⟨rfl, rfl⟩ := Prod.mk.inj (Option.some.inj (hsplit.symm.trans heq))
          rfl
    next hother => exact absurd hequals (hother _)

/-- Attributes are read back as they are written, as long as keys are not listed or differ. -/
theorem readAttributes_flatMap_write (seen : Option (List (List Char × Nat)))
    (hplain : ∀ raw ∈ raws, raw.IsPlain)
    (hnew : ∀ listed ∈ seen,
      (∀ raw ∈ raws, listed.lookup raw.key = none) ∧ (raws.map (·.key)).Nodup) (total : Nat) :
    readAttributes total seen (raws.flatMap (·.write)) = (raws, none) := by
  induction raws generalizing seen with
  | nil => rw [List.flatMap_nil, readAttributes]; rfl
  | cons raw raws ih =>
      have hunseen : seen.bind (·.lookup raw.key) = none := by
        cases seen with
        | none => rfl
        | some listed => exact (hnew listed rfl).1 raw List.mem_cons_self
      obtain ⟨offset, hread⟩ := readAttributes_write_append (hplain raw List.mem_cons_self) hunseen
        total (raws.flatMap (·.write))
      have hmore : ∀ listed ∈ seen.map ((raw.key, offset) :: ·),
          (∀ other ∈ raws, listed.lookup other.key = none) ∧ (raws.map (·.key)).Nodup := by
        intro listed hlisted
        obtain ⟨listed, hmem, rfl⟩ := Option.map_eq_some_iff.mp hlisted
        obtain ⟨hlookup, hnodup⟩ := hnew listed hmem
        obtain ⟨hfresh, hnodup⟩ := List.nodup_cons.mp hnodup
        refine ⟨fun other hother => ?_, hnodup⟩
        have hne : other.key ≠ raw.key := fun heq =>
          hfresh (List.mem_map.mpr ⟨other, hother, heq⟩)
        rw [List.lookup_cons, beq_false_of_ne hne]
        exact hlookup other (List.mem_cons_of_mem _ hother)
      have hrest := ih (seen.map ((raw.key, offset) :: ·))
        (fun other hother => hplain other (List.mem_cons_of_mem _ hother)) hmore
      rw [List.flatMap_cons, hread, hrest]

theorem isStretch_flatMap_write (h : ∀ raw ∈ raws, raw.IsPlain) :
    IsStretch (raws.flatMap (·.write)) := by
  induction raws with
  | nil => exact isStretch_nil
  | cons raw raws ih =>
      have hraw := isStretch_write (h raw List.mem_cons_self)
      exact hraw.append (ih fun raw hmem => h raw (List.mem_cons_of_mem _ hmem))

theorem takeWhile_name {name : List Char} (hname : ∀ c ∈ name, isNamePart c)
    (raws : List RawAttribute) :
    (name ++ raws.flatMap (·.write)).takeWhile (!isMarkupBlank ·) = name ∧
      (name ++ raws.flatMap (·.write)).dropWhile (!isMarkupBlank ·) = raws.flatMap (·.write) := by
  have hplain : ∀ c ∈ name, (!isMarkupBlank c) = true := by
    intro c hc
    rw [not_isMarkupBlank_of_isNamePart (hname c hc)]
    rfl
  have hblank : isMarkupBlank ' ' = true := by decide
  rw [List.takeWhile_append_of_pos hplain, List.dropWhile_append_of_pos hplain]
  cases raws with
  | nil => simp
  | cons raw raws => simp [RawAttribute.write, hblank]

end Tag

/-! ## Written tags -/

/-- An attribute as it is written. -/
def Attribute.raw (attr : Attribute) : Tag.RawAttribute :=
  ⟨attr.name.text.toList, attr.value.toList.flatMap escapeValueChar⟩

theorem Attribute.toList_write (attr : Attribute) : attr.write.toList = attr.raw.write := by
  unfold write escapeValue raw Tag.RawAttribute.write
  simp

variable {attr : Attribute} {attributes : List Attribute} {element : Element}

theorem QualifiedName.IsXml.isNamePart {name : QualifiedName} (h : name.IsXml) :
    ∀ c ∈ name.text.toList, isNamePart c :=
  fun _ => isNamePart_of_mem h.xml

theorem QualifiedName.IsXml.ne_nil {name : QualifiedName} (h : name.IsXml) :
    name.text.toList ≠ [] := by
  intro hnil
  have hxml := h.xml
  rw [hnil] at hxml
  cases hxml

theorem QualifiedName.IsXml.eq_of_text {name other : QualifiedName} (h : name.IsXml)
    (hother : other.IsXml) (htext : name.text = other.text) : name = other := by
  rw [← h.parse_text, htext, hother.parse_text]

/-- Whatever the value of an attribute holds, it is written as a plain one. -/
theorem isPlain_raw (h : attr.name.IsXml) : attr.raw.IsPlain := by
  refine ⟨h.isNamePart, h.ne_nil, fun hmem => ?_⟩
  obtain ⟨c, -, hc⟩ := List.mem_flatMap.mp hmem
  exact (not_mem_escapeValueChar c _ hc).1 rfl

theorem isPlain_of_mem_map_raw (h : ∀ attr ∈ attributes, attr.name.IsXml) :
    ∀ raw ∈ attributes.map Attribute.raw, raw.IsPlain := by
  intro raw hraw
  obtain ⟨attr, hattr, rfl⟩ := List.mem_map.mp hraw
  exact isPlain_raw (h attr hattr)

theorem readAttribute?_raw (h : attr.name.IsXml) : Draft.readAttribute? attr.raw = some attr := by
  unfold Draft.readAttribute? Attribute.raw
  rw [Reference.unescape_flatMap_escapeValueChar]
  simp [h.parse_text]

theorem mapM_readAttribute?_raw (h : ∀ attr ∈ attributes, attr.name.IsXml) :
    (attributes.map Attribute.raw).mapM Draft.readAttribute? = some attributes := by
  induction attributes with
  | nil => rfl
  | cons attr attributes ih =>
      have hattr := readAttribute?_raw (h attr List.mem_cons_self)
      have hrest := ih fun attr hmem => h attr (List.mem_cons_of_mem _ hmem)
      rw [List.map_cons, List.mapM_cons, hattr, hrest]
      rfl

instance (name : QualifiedName) : Decidable name.IsXml :=
  decidable_of_iff (isXmlName name.text.toList ∧ QualifiedName.parse name.text = name)
    ⟨fun h => ⟨h.1, h.2⟩, fun h => ⟨h.xml, h.parse_text⟩⟩

/-- The names of the element and of its attributes are names of XML, and no two attributes have
the same name. -/
structure Element.IsXml (element : Element) : Prop where
  name : element.name.IsXml
  attributes : ∀ attr ∈ element.attributes, attr.name.IsXml
  nodup : (element.attributes.map (·.name)).Nodup

instance (element : Element) : Decidable element.IsXml :=
  decidable_of_iff (element.name.IsXml ∧ (∀ attr ∈ element.attributes, attr.name.IsXml) ∧
      (element.attributes.map (·.name)).Nodup)
    ⟨fun h => ⟨h.1, h.2.1, h.2.2⟩, fun h => ⟨h.name, h.attributes, h.nodup⟩⟩

theorem Element.IsXml.nodup_keys (h : element.IsXml) :
    ((element.attributes.map Attribute.raw).map (·.key)).Nodup := by
  have hpairwise := List.pairwise_map.mp h.nodup
  rw [List.map_map]
  refine List.pairwise_map.mpr (hpairwise.imp_of_mem ?_)
  intro attr other hattr hother hne hkey
  exact hne ((h.attributes attr hattr).eq_of_text (h.attributes other hother)
    (String.toList_inj.mp hkey))

theorem toList_writeTag (element : Element) :
    (NodeKind.writeTag element).toList =
      element.name.text.toList ++ (element.attributes.map Attribute.raw).flatMap (·.write) := by
  unfold NodeKind.writeTag
  rw [String.toList_append, String.toList_join, List.flatMap_map, List.flatMap_map]
  simp only [Attribute.toList_write]

theorem isStretch_writeTag (h : element.IsXml) :
    IsStretch (NodeKind.writeTag element).toList := by
  have hattributes := Tag.isStretch_flatMap_write (isPlain_of_mem_map_raw h.attributes)
  rw [toList_writeTag]
  exact (isStretch_of_isNamePart h.name.isNamePart).append hattributes

/-- The first character of a tag is that of a name. -/
theorem exists_cons_of_writeTag (h : element.IsXml) :
    ∃ c tag, (NodeKind.writeTag element).toList = c :: tag ∧ isNamePart c := by
  obtain ⟨c, name, hname⟩ := List.exists_cons_of_ne_nil h.name.ne_nil
  have hc := h.name.isNamePart c (hname ▸ List.mem_cons_self)
  rw [toList_writeTag, hname]
  exact ⟨c, _, rfl, hc⟩

/-- A tag ends with the last character of a name or with a quote. -/
theorem getLast?_writeTag_ne (h : element.IsXml) :
    (NodeKind.writeTag element).toList.getLast? ≠ some '/' := by
  rw [toList_writeTag]
  intro hlast
  rcases List.eq_nil_or_concat' element.attributes with hnil | ⟨front, attr, heq⟩
  · rw [hnil, List.map_nil, List.flatMap_nil, List.append_nil] at hlast
    have hpart := h.name.isNamePart '/' (List.mem_of_getLast? hlast)
    exact absurd hpart (by decide)
  · rw [heq] at hlast
    simp [Tag.RawAttribute.write, List.getLast?_cons, List.getLast?_append] at hlast

/-- The element of a written tag is the element. -/
theorem readElement?_writeTag (h : element.IsXml) :
    Draft.readElement? (NodeKind.writeTag element).toList = some element.bare := by
  obtain ⟨hname, hattributes⟩ :=
    Tag.takeWhile_name h.name.isNamePart (element.attributes.map Attribute.raw)
  have hread := Tag.readAttributes_flatMap_write (some []) (isPlain_of_mem_map_raw h.attributes)
    (by simpa using h.nodup_keys) (byteLength (NodeKind.writeTag element).toList)
  unfold Draft.readElement? Tag.attributes Tag.name
  rw [toList_writeTag] at hread ⊢
  rw [hname, hattributes, hread]
  dsimp only
  rw [mapM_readAttribute?_raw h.attributes, String.ofList_toList]
  unfold Element.named
  rw [h.name.parse_text]
  rfl

theorem name_writeTag (h : element.IsXml) :
    Tag.name (NodeKind.writeTag element).toList = element.name.text.toList := by
  rw [toList_writeTag]
  exact (Tag.takeWhile_name h.name.isNamePart _).1

theorem closingName_text {name : QualifiedName} (h : name.IsXml) :
    Tag.closingName name.text.toList = name.text.toList := by
  have hplain : ∀ c ∈ name.text.toList, isMarkupBlank c = false := fun c hc =>
    not_isMarkupBlank_of_isNamePart (h.isNamePart c hc)
  unfold Tag.closingName
  split
  · rfl
  · have hlast : name.text.toList.reverse.dropWhile isMarkupBlank = name.text.toList.reverse := by
      cases hreverse : name.text.toList.reverse with
      | nil => rfl
      | cons c rest =>
          have hc := hplain c (List.mem_reverse.mp (hreverse ▸ List.mem_cons_self))
          rw [List.dropWhile_cons, hc]
          rfl
    rw [hlast, List.reverse_reverse]

/-! ## Tags among other markup -/

/-- What follows an opening bracket is a tag when it begins like a name. -/
theorem event_read_tag {c : Char} (hc : isNamePart c) {s tag rest : List Char}
    (hcut : Event.cutTag none (c :: s) = .ok (tag, rest)) :
    Event.read ('<' :: c :: s) = .ok
      (if tag.getLast? = some '/' then .emptyTag tag.dropLast else .startTag tag, rest) := by
  unfold Event.read
  split
  next heq => exact absurd (List.cons.inj (List.cons.inj heq).2).1 (ne_of_isNamePart hc (by decide))
  next heq => exact absurd (List.cons.inj (List.cons.inj heq).2).1 (ne_of_isNamePart hc (by decide))
  next heq => exact absurd (List.cons.inj (List.cons.inj heq).2).1 (ne_of_isNamePart hc (by decide))
  next heq =>
    obtain rfl := (List.cons.inj heq).2
    rw [hcut]
    simp only [bind, Except.bind]
    split <;> rfl
  next heq => cases (List.cons.inj heq).1
  next htag _ => exact absurd rfl (htag _)

theorem read_startTag (h : element.IsXml) (rest : List Char) :
    Event.read ('<' :: ((NodeKind.writeTag element).toList ++ '>' :: rest)) =
      .ok (.startTag (NodeKind.writeTag element).toList, rest) := by
  have hcut := cutTag_stretch (isStretch_writeTag h) rest
  obtain ⟨c, tag, htag, hc⟩ := exists_cons_of_writeTag h
  have hlast := getLast?_writeTag_ne h
  rw [htag, List.cons_append] at hcut ⊢
  rw [htag] at hlast
  rw [event_read_tag hc hcut, if_neg hlast]

theorem read_emptyTag (h : element.IsXml) (rest : List Char) :
    Event.read ('<' :: ((NodeKind.writeTag element).toList ++ '/' :: '>' :: rest)) =
      .ok (.emptyTag (NodeKind.writeTag element).toList, rest) := by
  have hslash : IsStretch ['/'] := isStretch_cons (by decide) (by decide) (by decide) isStretch_nil
  have hcut := cutTag_stretch ((isStretch_writeTag h).append hslash) rest
  rw [List.append_assoc, List.singleton_append] at hcut
  obtain ⟨c, tag, htag, hc⟩ := exists_cons_of_writeTag h
  rw [htag, List.cons_append] at hcut ⊢
  rw [event_read_tag hc hcut, if_pos List.getLast?_concat, List.dropLast_concat]

theorem read_endTag {name : QualifiedName} (h : name.IsXml) (rest : List Char) :
    Event.read ('<' :: '/' :: (name.text.toList ++ '>' :: rest)) =
      .ok (.endTag name.text.toList, rest) := by
  have hcut := cutTag_stretch (isStretch_of_isNamePart h.isNamePart) rest
  show (Event.cutTag none (name.text.toList ++ '>' :: rest)).bind _ = _
  rw [hcut]
  rfl

end PageTemplate.Markup
