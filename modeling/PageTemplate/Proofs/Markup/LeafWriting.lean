import PageTemplate.Proofs.Markup.DoctypeWriting
import PageTemplate.Proofs.Markup.TagWriting

/-! # Comments, sections, instructions and declarations read back

A comment, a CDATA section or a processing instruction that was read does not hold what ends it,
so its content stands between the same delimiters again. Of the XML declaration only the three
values are kept, and they are written as attributes.
-/

namespace PageTemplate.Markup

open Text

namespace Event

variable {s after content : List Char}

theorem cutAt?_of_read_comment (h : read s = .ok (.comment content, after)) :
    ∃ inner, cutAt? "-->".toList inner = some (content, after) := by
  obtain ⟨inner, h⟩ := (exists_of_read h).1 rfl
  unfold readMarked at h
  split at h
  · split at h
    next hcut =>
      obtain ⟨hevent, rfl⟩ := Prod.mk.inj (Except.ok.inj h)
      obtain rfl := Event.comment.inj hevent
      obtain ⟨body, -, hbody⟩ := Option.bind_eq_some_iff.mp hcut
      exact ⟨body, hbody⟩
    next => contradiction
  · split at h <;> simp at h
  · split at h
    · split at h
      · contradiction
      · dsimp only at h
        repeat' split at h
        all_goals simp at h
    · contradiction
  · contradiction

theorem cutAt?_of_read_cdata (h : read s = .ok (.cdata content, after)) :
    ∃ inner, cutAt? "]]>".toList inner = some (content, after) := by
  obtain ⟨inner, h⟩ := (exists_of_read h).1 rfl
  unfold readMarked at h
  split at h
  · split at h <;> simp at h
  · split at h
    next hcut =>
      obtain ⟨hevent, rfl⟩ := Prod.mk.inj (Except.ok.inj h)
      obtain rfl := Event.cdata.inj hevent
      obtain ⟨body, -, hbody⟩ := Option.bind_eq_some_iff.mp hcut
      exact ⟨body, hbody⟩
    next => contradiction
  · split at h
    · split at h
      · contradiction
      · dsimp only at h
        repeat' split at h
        all_goals simp at h
    · contradiction
  · contradiction

/-- An instruction or declaration that was read ends at the first place where it could, and its
content says which of the two it is. -/
theorem cutAt?_of_readInstruction {event : Event} (h : readInstruction s = .ok (event, after)) :
    s.head? ≠ some '>' ∧ ∃ content, cutAt? "?>".toList s = some (content, after) ∧
      event = if isDeclaration content then .declaration content else .instruction content := by
  unfold readInstruction at h
  split at h
  · contradiction
  next hhead =>
    split at h
    next content after hcut =>
      obtain ⟨rfl, rfl⟩ := Prod.mk.inj (Except.ok.inj h)
      exact ⟨hhead, content, hcut, rfl⟩
    next => split at h <;> contradiction

theorem read_comment (h : read s = .ok (.comment content, after)) (rest : List Char) :
    read ("<!--".toList ++ (content ++ ("-->".toList ++ rest))) = .ok (.comment content, rest) := by
  obtain ⟨inner, hcut⟩ := cutAt?_of_read_comment h
  have hagain := cutAt?_append hcut rest
  rw [List.append_assoc] at hagain
  have hstrip : strip? "--".toList ('-' :: '-' :: (content ++ ("-->".toList ++ rest))) = some _ :=
    strip?_append "--".toList (content ++ ("-->".toList ++ rest))
  show readMarked ('-' :: '-' :: (content ++ ("-->".toList ++ rest))) = _
  rw [readMarked, hstrip, Option.bind_some, hagain]

theorem read_cdata (h : read s = .ok (.cdata content, after)) (rest : List Char) :
    read ("<![CDATA[".toList ++ (content ++ ("]]>".toList ++ rest))) =
      .ok (.cdata content, rest) := by
  obtain ⟨inner, hcut⟩ := cutAt?_of_read_cdata h
  have hagain := cutAt?_append hcut rest
  rw [List.append_assoc] at hagain
  have hstrip : strip? "[CDATA[".toList
      ('[' :: ("CDATA[".toList ++ (content ++ ("]]>".toList ++ rest)))) = some _ :=
    strip?_append "[CDATA[".toList (content ++ ("]]>".toList ++ rest))
  show readMarked ('[' :: ("CDATA[".toList ++ (content ++ ("]]>".toList ++ rest)))) = _
  rw [readMarked, hstrip, Option.bind_some, hagain]

theorem read_instruction (h : read s = .ok (.instruction content, after)) (rest : List Char) :
    read ("<?".toList ++ (content ++ ("?>".toList ++ rest))) =
      .ok (.instruction content, rest) := by
  obtain ⟨inner, h⟩ := (exists_of_read h).2 rfl
  obtain ⟨hhead, content', hcut, hevent⟩ := cutAt?_of_readInstruction h
  split at hevent
  · contradiction
  next hdeclaration =>
    obtain rfl := Event.instruction.inj hevent
    have hagain := cutAt?_append hcut rest
    rw [List.append_assoc] at hagain
    have hstart : (content ++ ("?>".toList ++ rest)).head? ≠ some '>' := by
      rw [eq_append_of_cutAt? hcut] at hhead
      cases content with
      | nil => simp
      | cons c content => exact hhead
    show readInstruction (content ++ ("?>".toList ++ rest)) = _
    unfold readInstruction
    rw [if_neg hstart, hagain]
    dsimp only
    rw [if_neg hdeclaration]

end Event

/-! ## Declarations -/

/-- Nowhere in the text could a processing instruction end. -/
def Unbroken (s : List Char) : Prop := s.IsChain fun c d => c = '?' → d ≠ '>'

section

variable {s t value : List Char}

theorem unbroken_append (hs : Unbroken s) (ht : Unbroken t)
    (hbetween : s.getLast? = some '?' → t.head? ≠ some '>') : Unbroken (s ++ t) := by
  refine List.isChain_append.mpr ⟨hs, ht, ?_⟩
  rintro c hc d hd rfl rfl
  exact hbetween hc hd

theorem unbroken_of_not_mem (h : '?' ∉ s) : Unbroken s := by
  induction s with
  | nil => exact .nil
  | cons c s ih =>
      obtain ⟨hc, hs⟩ : '?' ≠ c ∧ '?' ∉ s := by simpa using h
      exact List.isChain_cons.mpr ⟨fun _ _ heq => absurd heq.symm hc, ih hs⟩

/-- An attribute of unbroken text is unbroken. -/
theorem unbroken_write {raw : Tag.RawAttribute} (h : raw.IsPlain) (hvalue : Unbroken raw.value) :
    Unbroken raw.write := by
  have hkey : '?' ∉ ' ' :: (raw.key ++ ['=', '"']) := by
    intro hmem
    rcases List.mem_cons.mp hmem with heq | hmem
    · cases heq
    · rcases List.mem_append.mp hmem with hmem | hmem
      · exact absurd (h.key '?' hmem) (by decide)
      · revert hmem; decide
  have hwrite : raw.write = (' ' :: (raw.key ++ ['=', '"'])) ++ (raw.value ++ ['"']) := by
    unfold Tag.RawAttribute.write
    simp
  have hquoted : Unbroken (raw.value ++ ['"']) :=
    unbroken_append hvalue (.singleton _) fun _ => by decide
  rw [hwrite]
  refine unbroken_append (unbroken_of_not_mem hkey) hquoted fun hlast => ?_
  exact absurd (List.mem_of_getLast? hlast) hkey

theorem unbroken_flatMap_write {raws : List Tag.RawAttribute} (h : ∀ raw ∈ raws, raw.IsPlain)
    (hvalue : ∀ raw ∈ raws, Unbroken raw.value) : Unbroken (raws.flatMap (·.write)) := by
  induction raws with
  | nil => exact .nil
  | cons raw raws ih =>
      have hraw := unbroken_write (h raw List.mem_cons_self) (hvalue raw List.mem_cons_self)
      have hraws := ih (fun raw hmem => h raw (List.mem_cons_of_mem _ hmem))
        fun raw hmem => hvalue raw (List.mem_cons_of_mem _ hmem)
      refine unbroken_append hraw hraws fun _ => ?_
      cases raws with
      | nil => simp
      | cons raw raws => simp [Tag.RawAttribute.write]

end

/-- The value of an attribute that was read stands in the text. -/
theorem isInfix_of_mem_readAttributes {raw : Tag.RawAttribute} {total : Nat}
    {seen : Option (List (List Char × Nat))} {s : List Char}
    (h : raw ∈ (Tag.readAttributes total seen s).1) : raw.value <:+: s := by
  fun_induction Tag.readAttributes total seen s
  case case5 s _ rest hkey _ _ beforeValue hequals _ quote body hquote _ value after hvalue _ _
      hread ih =>
    obtain ⟨c, -, hbody, -⟩ := eq_append_of_splitAt? hvalue
    have hrest : rest <:+ s := (List.suffix_cons _ _).trans (hkey ▸ List.dropWhile_suffix _)
    have hbefore : beforeValue <:+ rest := (List.suffix_cons _ _).trans
      (hequals ▸ (List.dropWhile_suffix _).trans (List.dropWhile_suffix _))
    have hstart : quote :: body <:+ s :=
      ((hquote ▸ List.dropWhile_suffix _ : quote :: body <:+ beforeValue).trans hbefore).trans hrest
    rcases List.mem_cons.mp h with rfl | hmore
    · exact List.IsInfix.trans ⟨[quote], c :: after, by simp [hbody]⟩ hstart.isInfix
    · rw [hread] at ih
      have hafter : after <:+ quote :: body := ⟨quote :: (value ++ [c]), by simp [hbody]⟩
      exact (ih hmore).trans (hafter.trans hstart).isInfix
  all_goals cases h

/-- The attributes of a declaration with the given values. -/
def declared (version : String) (encoding standalone : Option String) : List Tag.RawAttribute :=
  ⟨"version".toList, version.toList⟩ ::
    ((encoding.map fun value => ⟨"encoding".toList, value.toList⟩).toList ++
      (standalone.map fun value => ⟨"standalone".toList, value.toList⟩).toList)

/-- The values of a declaration. -/
def declaredValues (version : String) (encoding standalone : Option String) : List String :=
  version :: (encoding.toList ++ standalone.toList)

section

variable {version : String} {encoding standalone : Option String} {content : List Char}

theorem toList_write_declaration (isEmpty : Bool) (inner : String) :
    (NodeKind.write none isEmpty inner (.declaration version encoding standalone)).toList =
      "<?".toList ++ ("xml".toList ++ (declared version encoding standalone).flatMap (·.write) ++
        "?>".toList) := by
  unfold NodeKind.write declared writeDeclared
  cases encoding <;> cases standalone <;> simp [Tag.RawAttribute.write]

theorem mem_declared {raw : Tag.RawAttribute}
    (h : raw ∈ declared version encoding standalone) :
    raw.key ∈ ["version".toList, "encoding".toList, "standalone".toList] ∧
      ∃ value ∈ declaredValues version encoding standalone, raw.value = value.toList := by
  unfold declared at h
  unfold declaredValues
  cases encoding <;> cases standalone <;> simp at h <;> grind

theorem readDeclaration_declared
    (hplain : ∀ raw ∈ declared version encoding standalone, raw.IsPlain) :
    Reading.readDeclaration
      ("xml".toList ++ (declared version encoding standalone).flatMap (·.write)) =
      .declaration version encoding standalone := by
  have hname : ∀ c ∈ "xml".toList, isNamePart c := List.all_eq_true.mp (by decide)
  obtain ⟨-, hattributes⟩ := Tag.takeWhile_name hname (declared version encoding standalone)
  have hread := Tag.readAttributes_flatMap_write none hplain nofun
    (byteLength ("xml".toList ++ (declared version encoding standalone).flatMap (·.write)))
  unfold Reading.readDeclaration Tag.looseAttributes
  rw [hattributes, hread]
  calc _ = NodeKind.declaration (String.ofList version.toList)
        (encoding.map fun value => String.ofList value.toList)
        (standalone.map fun value => String.ofList value.toList) := by
        unfold declared
        cases encoding <;> cases standalone <;> rfl
    _ = _ := by simp only [String.ofList_toList, Option.map_id']

/-- The values of a declaration are taken from its content, where no instruction could end. -/
theorem unbroken_of_readDeclaration (hcontent : Unbroken content)
    (h : Reading.readDeclaration content = .declaration version encoding standalone) :
    ∀ value ∈ declaredValues version encoding standalone, Unbroken value.toList := by
  have hraw : ∀ raw ∈ (Tag.looseAttributes content).1,
      Unbroken (String.ofList raw.value).toList := by
    intro raw hraw
    rw [String.toList_ofList]
    have hpart := isInfix_of_mem_readAttributes hraw
    exact hcontent.infix (hpart.trans (List.dropWhile_suffix _).isInfix)
  unfold Reading.readDeclaration at h
  obtain ⟨rfl, rfl, rfl⟩ := NodeKind.declaration.inj h
  intro value hvalue
  rcases List.mem_cons.mp hvalue with rfl | hvalue
  · split
    next attr hhead =>
      split
      · exact hraw attr (List.mem_of_head? hhead)
      · exact unbroken_of_not_mem (by decide)
    next => exact unbroken_of_not_mem (by decide)
  · rcases List.mem_append.mp hvalue with hmem | hmem
    all_goals
      obtain ⟨attr, hfind, rfl⟩ := Option.map_eq_some_iff.mp (Option.mem_toList.mp hmem)
      exact hraw attr (List.mem_of_find?_eq_some hfind)

/-- A declaration that was read reads back from its three values, unless one of them holds the
quote that is put around it. -/
theorem read_declaration {s after : List Char}
    (h : Event.read s = .ok (.declaration content, after))
    (hkind : Reading.readDeclaration content = .declaration version encoding standalone)
    (hquote : ∀ value ∈ declaredValues version encoding standalone, '"' ∉ value.toList)
    (isEmpty : Bool) (inner : String) (rest : List Char) :
    ∃ again, Event.read
        ((NodeKind.write none isEmpty inner (.declaration version encoding standalone)).toList ++
          rest) = .ok (.declaration again, rest) ∧
      Reading.readDeclaration again = .declaration version encoding standalone := by
  obtain ⟨body, h⟩ := (Event.exists_of_read h).2 rfl
  obtain ⟨-, content', hcut, hevent⟩ := Event.cutAt?_of_readInstruction h
  have hcontent : Unbroken content := by
    split at hevent
    · obtain rfl := Event.declaration.inj hevent
      exact isChain_of_cutAt? hcut
    · contradiction
  have hplain : ∀ raw ∈ declared version encoding standalone, raw.IsPlain := by
    intro raw hraw
    obtain ⟨hkey, value, hvalue, hvalueEq⟩ := mem_declared hraw
    refine ⟨?_, ?_, hvalueEq ▸ hquote value hvalue⟩
    · have hkeys : ["version".toList, "encoding".toList, "standalone".toList].all
          (·.all isNamePart) = true := by decide
      exact List.all_eq_true.mp (List.all_eq_true.mp hkeys _ hkey)
    · rintro heq
      rw [heq] at hkey
      revert hkey
      decide
  have hunbroken : Unbroken ("xml".toList ++
      (declared version encoding standalone).flatMap (·.write)) := by
    have hvalues := unbroken_of_readDeclaration hcontent hkind
    refine unbroken_append (unbroken_of_not_mem (by decide)) (unbroken_flatMap_write hplain ?_)
      fun hlast => absurd hlast (by decide)
    intro raw hraw
    obtain ⟨-, value, hvalue, heq⟩ := mem_declared hraw
    exact heq ▸ hvalues value hvalue
  refine ⟨_, ?_, readDeclaration_declared hplain⟩
  rw [toList_write_declaration, List.append_assoc, List.append_assoc]
  have hagain : cutAt? "?>".toList _ = _ := cutAt?_of_isChain (by decide) hunbroken rest
  have hdeclaration : Event.isDeclaration
      ("xml".toList ++ (declared version encoding standalone).flatMap (·.write)) := by
    unfold Event.isDeclaration
    rw [strip?_append]
    rfl
  show Event.readInstruction ("xml".toList ++
    (declared version encoding standalone).flatMap (·.write) ++ '?' :: '>' :: rest) = _
  unfold Event.readInstruction
  have hhead : ("xml".toList ++ (declared version encoding standalone).flatMap (·.write) ++
      '?' :: '>' :: rest).head? ≠ some '>' := by
    simp
  rw [if_neg hhead, hagain]
  dsimp only
  rw [if_pos hdeclaration]

end

end PageTemplate.Markup
