import Mathlib.Data.List.DropRight
import Mathlib.Data.List.TakeDrop
import TrustFramework.Xml.Reader

/-!
# What is written, read character by character

Names end where a character stands that no name holds, references where their semicolon stands,
attribute values where their quote stands; so each of them is read back as it was written,
whatever follows.  Only a carriage return does not come back: in a text it stands as it is, and
reading makes a line feed of it.

## Main definitions

* `isName`, `IsQualifiedName`, `isQualified` — simple names, and names with or without a prefix.
* `isWord` — a text of the characters of qualified names, in any order.

## Main results

* `lineEnds_induction` — a text goes by its line ends.
* `readQualifiedName?_append` — a name is read up to what follows it.
* `readAttribute?_written` — **an attribute is read as it was written, if its name is one.**
* `expandFrom_escapeValue` — the value of an attribute is what it was.
* `settleLineEnds_escapeText` — line ends are settled in a text as in what is written of it.
-/

namespace TrustFramework

/-! ### Line ends -/

namespace Text

theorem settleLineEnds_cons_of_ne {c : Char} (h : c ≠ '\r') (rest : List Char) :
    settleLineEnds (c :: rest) = c :: settleLineEnds rest := by
  rw [settleLineEnds]
  · exact fun _ hc _ => h hc
  · exact h

theorem head?_ne_of {c : Char} {cs : List Char} (h : ∀ more, cs = c :: more → False) :
    cs.head? ≠ some c := by
  rintro hc
  obtain ⟨more, hmore⟩ := List.head?_eq_some_iff.mp hc
  exact h more hmore

theorem settleLineEnds_return {rest : List Char} (h : rest.head? ≠ some '\n') :
    settleLineEnds ('\r' :: rest) = '\n' :: settleLineEnds rest := by
  rw [settleLineEnds]
  rintro more rfl
  exact h rfl

theorem settleLineEnds_pair (rest : List Char) :
    settleLineEnds ('\r' :: '\n' :: rest) = '\n' :: settleLineEnds rest := rfl

/-- A text begins with both marks of a line end, with a carriage return alone, or with another
character. -/
@[elab_as_elim]
theorem lineEnds_induction {motive : List Char → Prop} (nil : motive [])
    (pair : ∀ rest, motive rest → motive ('\r' :: '\n' :: rest))
    (alone : ∀ rest, rest.head? ≠ some '\n' → motive rest → motive ('\r' :: rest))
    (other : ∀ c rest, c ≠ '\r' → motive rest → motive (c :: rest)) (cs : List Char) :
    motive cs := by
  induction cs using settleLineEnds.induct with
  | case1 => exact nil
  | case2 rest ih => exact pair rest ih
  | case3 rest hrest ih => exact alone rest (head?_ne_of hrest) ih
  | case4 c rest _ hc ih => exact other c rest hc ih

theorem settleLineEnds_append_of_not_mem {cs : List Char} (h : '\r' ∉ cs) (rest : List Char) :
    settleLineEnds (cs ++ rest) = cs ++ settleLineEnds rest := by
  induction cs with
  | nil => rfl
  | cons c cs ih =>
    rw [List.mem_cons, not_or] at h
    rw [List.cons_append, settleLineEnds_cons_of_ne (Ne.symm h.1), ih h.2, List.cons_append]

theorem settleLineEnds_eq_self {cs : List Char} (h : '\r' ∉ cs) : settleLineEnds cs = cs := by
  have happend := settleLineEnds_append_of_not_mem h []
  rwa [List.append_nil, show settleLineEnds [] = [] from rfl, List.append_nil] at happend

/-- Settling line ends adds no characters but line feeds. -/
theorem mem_settleLineEnds {c : Char} {cs : List Char} (h : c ∈ settleLineEnds cs) :
    c = '\n' ∨ c ∈ cs := by
  induction cs using lineEnds_induction with
  | nil => cases h
  | pair rest ih =>
    rw [settleLineEnds_pair, List.mem_cons] at h
    exact h.imp_right fun h => (ih h).elim (fun h => h ▸ by simp) fun h => by simp [h]
  | alone rest hrest ih =>
    rw [settleLineEnds_return hrest, List.mem_cons] at h
    exact h.elim Or.inl fun h => (ih h).imp_right (List.mem_cons_of_mem _)
  | other c' rest hc ih =>
    rw [settleLineEnds_cons_of_ne hc, List.mem_cons] at h
    rcases h with rfl | h
    · exact Or.inr List.mem_cons_self
    · exact (ih h).imp_right (List.mem_cons_of_mem _)

theorem not_mem_settleLineEnds (cs : List Char) : '\r' ∉ settleLineEnds cs := by
  induction cs using lineEnds_induction with
  | nil => exact List.not_mem_nil
  | pair rest ih =>
    rw [settleLineEnds_pair]
    simpa using ih
  | alone rest hrest ih =>
    rw [settleLineEnds_return hrest]
    simpa using ih
  | other c rest hc ih =>
    rw [settleLineEnds_cons_of_ne hc]
    simpa [ih] using Ne.symm hc

/-- A line end does not go on in what follows, unless that starts with a line feed. -/
theorem settleLineEnds_append {rest : List Char} (h : rest.head? ≠ some '\n') (cs : List Char) :
    settleLineEnds (cs ++ rest) = settleLineEnds cs ++ settleLineEnds rest := by
  induction cs using lineEnds_induction with
  | nil => rfl
  | pair more ih =>
    rw [List.cons_append, List.cons_append, settleLineEnds_pair, ih, settleLineEnds_pair,
      List.cons_append]
  | alone more hmore ih =>
    have hhead : (more ++ rest).head? ≠ some '\n' := by
      cases more with
      | nil => exact h
      | cons c more => exact hmore
    rw [List.cons_append, settleLineEnds_return hhead, ih, settleLineEnds_return hmore,
      List.cons_append]
  | other c more hc ih =>
    rw [List.cons_append, settleLineEnds_cons_of_ne hc, settleLineEnds_cons_of_ne hc, ih,
      List.cons_append]

theorem isEmpty_withLineFeeds (s : String) : (withLineFeeds s).isEmpty = s.isEmpty := by
  have hnil : ∀ cs, settleLineEnds cs = [] ↔ cs = [] := by
    intro cs
    cases cs using lineEnds_induction with
    | nil => exact Iff.rfl
    | pair rest => simp [settleLineEnds_pair]
    | alone rest hrest => simp [settleLineEnds_return hrest]
    | other c rest hc => simp [settleLineEnds_cons_of_ne hc]
  rw [Bool.eq_iff_iff]
  simp only [withLineFeeds, String.isEmpty_iff, ← String.toList_inj, String.toList_ofList]
  simpa using hnil s.toList

/-! ### Blanks at the ends -/

theorem trimmed_eq_rdropWhile (cs : List Char) :
    trimmed cs = (cs.dropWhile isBlank).rdropWhile isBlank := rfl

theorem trimmed_eq_nil {cs : List Char} (h : ∀ c ∈ cs, isBlank c = true) : trimmed cs = [] := by
  rw [trimmed_eq_rdropWhile, List.dropWhile_eq_nil_iff.mpr h]
  rfl

/-- A text that was trimmed has no blanks at its ends. -/
theorem trimmed_trimmed (cs : List Char) : trimmed (trimmed cs) = trimmed cs := by
  have hfront : (trimmed cs).dropWhile isBlank = trimmed cs := by
    rw [List.dropWhile_eq_self_iff]
    intro hpos
    -- the first character is the first that is not blank
    have hfront : trimmed cs <+: cs.dropWhile isBlank := List.rdropWhile_prefix _ _
    rw [hfront.getElem hpos]
    exact List.dropWhile_get_zero_not isBlank cs (hpos.trans_le hfront.length_le)
  rw [trimmed_eq_rdropWhile (trimmed cs), hfront, trimmed_eq_rdropWhile cs,
    List.rdropWhile_idempotent]

@[simp] theorem trim_trim (s : String) : trim (trim s) = trim s := by
  rw [trim, trim, String.toList_ofList, trimmed_trimmed]

/-- Line ends are blank, so that a blank text stays one. -/
theorem trim_withLineFeeds_of_isBlankText {s : String} (h : isBlankText s = true) :
    trim (withLineFeeds s) = "" := by
  have hblank : ∀ c ∈ settleLineEnds s.toList, isBlank c = true := by
    intro c hc
    rcases mem_settleLineEnds hc with rfl | hc
    · decide
    · exact List.all_eq_true.mp h c hc
  rw [trim, withLineFeeds, String.toList_ofList, trimmed_eq_nil hblank]

end Text

namespace Xml

/-! ### Names -/

/-- Whether a text is a simple name. -/
def isName : List Char → Bool
  | [] => false
  | c :: cs => isNameStart c && cs.all isNameChar

/-- Names with or without a prefix. -/
inductive IsQualifiedName : List Char → Prop
  | simple {name : List Char} (h : isName name = true) : IsQualifiedName name
  | prefixed {pre name : List Char} (hpre : isName pre = true) (h : isName name = true) :
    IsQualifiedName (pre ++ ':' :: name)

/-- Whether a text has no characters but those of qualified names. -/
def isWord (cs : List Char) : Bool := cs.all fun c => isNameChar c || c = ':'

theorem isNameChar_of_isNameStart {c : Char} (h : isNameStart c = true) : isNameChar c = true := by
  unfold isNameStart at h
  unfold isNameChar
  dsimp only at h ⊢
  split at h
  · next hc =>
    rw [if_pos hc]
    simp only [Bool.or_eq_true, decide_eq_true_eq, Char.isAlphanum] at h ⊢
    tauto
  · next hc => simp [hc, h]

theorem all_isNameChar_of_isName {cs : List Char} (h : isName cs = true) :
    ∀ c ∈ cs, isNameChar c = true := by
  match cs, h with
  | c :: cs, h =>
    rw [isName, Bool.and_eq_true, List.all_eq_true] at h
    exact List.forall_mem_cons.mpr ⟨isNameChar_of_isNameStart h.1, h.2⟩

theorem isWord_of_isName {cs : List Char} (h : isName cs = true) : isWord cs = true := by
  simp +contextual only [isWord, List.all_eq_true, Bool.or_eq_true, all_isNameChar_of_isName h,
    true_or, implies_true]

theorem isWord_append {cs more : List Char} :
    isWord (cs ++ more) = (isWord cs && isWord more) := List.all_append

theorem isWord_of_isQualifiedName {cs : List Char} (h : IsQualifiedName cs) : isWord cs = true := by
  cases h with
  | simple h => exact isWord_of_isName h
  | @prefixed pre name hpre h =>
    have hcolon : isWord (':' :: name) = isWord name := by simp [isWord]
    rw [isWord_append, isWord_of_isName hpre, hcolon, isWord_of_isName h, Bool.true_and]

section Span

variable {α : Type} {p : α → Bool}

theorem span_append {items rest : List α} (h : ∀ x ∈ items, p x = true)
    (hrest : ∀ x ∈ rest.head?, p x = false) : (items ++ rest).span p = (items, rest) := by
  rw [List.span_eq_takeWhile_dropWhile, List.takeWhile_append_of_pos h,
    List.dropWhile_append_of_pos h]
  cases rest with
  | nil => simp
  | cons x rest => simp [hrest x rfl]

theorem of_span {items front rest : List α} (h : items.span p = (front, rest)) :
    items = front ++ rest ∧ (∀ x ∈ front, p x = true) ∧ ∀ x ∈ rest.head?, p x = false := by
  rw [List.span_eq_takeWhile_dropWhile, Prod.mk.injEq] at h
  obtain ⟨rfl, rfl⟩ := h
  refine ⟨List.takeWhile_append_dropWhile.symm, fun x hx => ?_, fun x hx => ?_⟩
  · exact List.all_eq_true.mp (List.all_takeWhile (l := items)) x hx
  · have := List.head?_dropWhile_not p items
    rw [Option.mem_def] at hx
    simpa [hx] using this

end Span

theorem IsQualifiedName.exists_cons {cs : List Char} (h : IsQualifiedName cs) :
    ∃ c more, cs = c :: more ∧ isNameStart c = true := by
  have hname : ∀ name : List Char, isName name = true →
      ∃ c more, name = c :: more ∧ isNameStart c = true := by
    intro name h
    match name, h with
    | c :: more, h => exact ⟨c, more, rfl, (Bool.and_eq_true _ _ ▸ h).1⟩
  cases h with
  | simple h => exact hname _ h
  | prefixed hpre _ =>
    obtain ⟨c, more, rfl, hc⟩ := hname _ hpre
    exact ⟨c, _, rfl, hc⟩

/-- A simple name is read up to the first character that is none of it. -/
theorem readName?_append {name rest : List Char} (h : isName name = true)
    (hrest : ∀ c ∈ rest.head?, isNameChar c = false) :
    readName? (name ++ rest) = some (name, rest) := by
  match name, h with
  | c :: cs, h =>
    rw [isName, Bool.and_eq_true, List.all_eq_true] at h
    rw [List.cons_append, readName?, if_pos h.1, span_append h.2 hrest]

theorem of_readName? {cs name rest : List Char} (h : readName? cs = some (name, rest)) :
    cs = name ++ rest ∧ isName name = true ∧ ∀ c ∈ rest.head?, isNameChar c = false := by
  unfold readName? at h
  split at h
  · next c cs =>
    split at h
    · next hc =>
      cases hspan : cs.span isNameChar with
      | mk tail more =>
        obtain ⟨rfl, htail, hmore⟩ := of_span hspan
        simp only [hspan, Option.some.injEq, Prod.mk.injEq] at h
        obtain ⟨rfl, rfl⟩ := h
        refine ⟨rfl, ?_, hmore⟩
        rw [isName, Bool.and_eq_true, List.all_eq_true]
        exact ⟨hc, htail⟩
    · cases h
  · cases h

/-- A name is read up to the first character that is none of it. -/
theorem readQualifiedName?_append {name rest : List Char} (h : IsQualifiedName name)
    (hrest : ∀ c ∈ rest.head?, isNameChar c = false ∧ c ≠ ':') :
    readQualifiedName? (name ++ rest) = some (name, rest) := by
  have hchar : ∀ c ∈ rest.head?, isNameChar c = false := fun c hc => (hrest c hc).1
  cases h with
  | simple h =>
    rw [readQualifiedName?, readName?_append h hchar]
    split
    · next hfound =>
      simp only [Option.some.injEq, Prod.mk.injEq] at hfound
      obtain ⟨-, rfl⟩ := hfound
      exact absurd rfl (hrest ':' rfl).2
    · rfl
  | prefixed hpre h =>
    have hcolon : ∀ more : List Char, ∀ c ∈ (':' :: more).head?, isNameChar c = false := by
      rintro more c ⟨⟩
      decide
    rw [readQualifiedName?, List.append_assoc, List.cons_append,
      readName?_append hpre (hcolon _)]
    simp [readName?_append h hchar]

theorem of_readQualifiedName? {cs name rest : List Char}
    (h : readQualifiedName? cs = some (name, rest)) : cs = name ++ rest ∧ IsQualifiedName name := by
  unfold readQualifiedName? at h
  split at h
  · next first more hfirst =>
    obtain ⟨rfl, hname, -⟩ := of_readName? hfirst
    cases hsecond : readName? more with
    | none => simp [hsecond] at h
    | some found =>
      obtain ⟨second, after⟩ := found
      obtain ⟨rfl, hsecond', -⟩ := of_readName? hsecond
      simp only [hsecond, Option.map_some, Option.some.injEq, Prod.mk.injEq] at h
      obtain ⟨rfl, rfl⟩ := h
      exact ⟨by simp, .prefixed hname hsecond'⟩
  · obtain ⟨rfl, hname, -⟩ := of_readName? h
    exact ⟨rfl, .simple hname⟩

/-- Whether a text is a name, with or without a prefix. -/
def isQualified (name : String) : Bool :=
  readQualifiedName? name.toList == some (name.toList, [])

theorem isQualified_iff {name : String} : isQualified name = true ↔ IsQualifiedName name.toList := by
  rw [isQualified, beq_iff_eq]
  refine ⟨fun h => (of_readQualifiedName? h).2, fun h => ?_⟩
  have hread : readQualifiedName? (name.toList ++ []) = some (name.toList, []) :=
    readQualifiedName?_append h (by simp)
  rwa [List.append_nil] at hread

/-! ### Escapes -/

/-- Whether a text has only characters that a document may hold. -/
def isLegible (s : String) : Bool := s.toList.all isChar

theorem isLegible_withLineFeeds {s : String} (h : isLegible s = true) :
    isLegible (Text.withLineFeeds s) = true := by
  rw [isLegible, List.all_eq_true] at h ⊢
  rw [Text.withLineFeeds, String.toList_ofList]
  intro c hc
  rcases Text.mem_settleLineEnds hc with rfl | hc
  · decide
  · exact h c hc

section Escapes

variable {c : Char}

/-- A text has a line end where what is written of it has one. -/
theorem settleLineEnds_flatMap_textChar (cs : List Char) :
    Text.settleLineEnds (cs.flatMap Element.textChar) =
      (Text.settleLineEnds cs).flatMap Element.textChar := by
  have hplain : ∀ c : Char, c ≠ '\r' → '\r' ∉ Element.textChar c := by
    intro c hc
    unfold Element.textChar
    split_ifs <;> simp [Ne.symm hc]
  have hfeed : ∀ c more, (Element.textChar c ++ more).head? = some '\n' → c = '\n' := by
    intro c more h
    unfold Element.textChar at h
    split_ifs at h <;> simp_all
  have hreturn : Element.textChar '\r' = ['\r'] := by decide
  have hlf : Element.textChar '\n' = ['\n'] := by decide
  induction cs using Text.lineEnds_induction with
  | nil => rfl
  | pair rest ih => simp [Text.settleLineEnds_pair, hreturn, hlf, ih]
  | alone rest hrest ih =>
    have hhead : (rest.flatMap Element.textChar).head? ≠ some '\n' := by
      cases rest with
      | nil => simp
      | cons c rest =>
        intro h
        exact hrest (by rw [hfeed c _ h]; rfl)
    rw [List.flatMap_cons, hreturn, List.singleton_append, Text.settleLineEnds_return hhead,
      Text.settleLineEnds_return hrest, ih, List.flatMap_cons, hlf, List.singleton_append]
  | other c rest hc ih =>
    rw [List.flatMap_cons, Text.settleLineEnds_append_of_not_mem (hplain c hc), ih,
      Text.settleLineEnds_cons_of_ne hc, List.flatMap_cons]

/-- What is written of an attribute value has no line ends and no quotes, and may stand in a
document. -/
theorem valueChar_spec (hc : isChar c = true) :
    ∀ x ∈ Element.valueChar c, x ≠ '\r' ∧ x ≠ '"' ∧ x ≠ '<' ∧ isChar x = true := by
  unfold Element.valueChar Element.textChar
  split_ifs with hquote hreturn _ _ _ hless
  case neg => exact List.forall_mem_singleton.mpr ⟨hreturn, hquote, hless, hc⟩
  all_goals simp [isChar]

/-- An attribute value is read up to its quote. -/
theorem readRaw?_escapeValue {cs : List Char} (h : ∀ c ∈ cs, isChar c = true)
    (rest acc : List Char) :
    readRaw? '"' (cs.flatMap Element.valueChar ++ '"' :: rest) acc =
      some (acc.reverse ++ cs.flatMap Element.valueChar, rest) := by
  have hmarks : ∀ x ∈ cs.flatMap Element.valueChar, x ≠ '"' ∧ x ≠ '<' ∧ isChar x = true := by
    intro x hx
    obtain ⟨c, hc, hx⟩ := List.mem_flatMap.mp hx
    exact (valueChar_spec (h c hc) x hx).2
  generalize cs.flatMap Element.valueChar = raw at hmarks ⊢
  induction raw generalizing acc with
  | nil => simp [readRaw?]
  | cons x raw ih =>
    rw [List.forall_mem_cons] at hmarks
    obtain ⟨⟨hquote, hopen, hchar⟩, hrest⟩ := hmarks
    rw [List.cons_append, readRaw?, if_neg hquote, if_pos ⟨hchar, hopen⟩, ih _ hrest]
    simp

/-- A reference in an attribute value gives its character. -/
theorem expandFrom_reference (expand : String → Option (List Char)) {body : List Char}
    (hbody : ';' ∉ body) (hc : Reference.ofBody? body = some (.character c)) (rest : List Char) :
    Doctype.expandFrom expand ('&' :: (body ++ ';' :: rest)) none =
      (Doctype.expandFrom expand rest none).map (c :: ·) := by
  have hread : ∀ (body acc : List Char), ';' ∉ body →
      Doctype.expandFrom expand (body ++ ';' :: rest) (some acc) =
        Doctype.expandFrom expand (';' :: rest) (some (body.reverse ++ acc)) := by
    intro body
    induction body with
    | nil => intro acc _; rfl
    | cons x body ih =>
      intro acc h
      rw [List.mem_cons, not_or] at h
      have hstep : Doctype.expandFrom expand (x :: (body ++ ';' :: rest)) (some acc) =
          Doctype.expandFrom expand (body ++ ';' :: rest) (some (x :: acc)) := by
        rw [Doctype.expandFrom]
        exact fun hx => h.1 hx.symm
      rw [List.cons_append, hstep, ih _ h.2, List.reverse_cons, List.append_assoc,
        List.singleton_append]
  rw [Doctype.expandFrom, hread body [] hbody, Doctype.expandFrom, List.append_nil,
    List.reverse_reverse, hc]

/-- One character of an attribute value is read back as it was. -/
theorem expandFrom_valueChar (expand : String → Option (List Char)) (c : Char)
    (rest : List Char) : Doctype.expandFrom expand (Element.valueChar c ++ rest) none =
      (Doctype.expandFrom expand rest none).map (c :: ·) := by
  unfold Element.valueChar Element.textChar
  split_ifs with hquote hreturn hfeed htab hamp hopen hclose
  · subst hquote
    exact expandFrom_reference expand (by decide : ';' ∉ ['q', 'u', 'o', 't']) (by decide) rest
  · subst hreturn
    exact expandFrom_reference expand (by decide : ';' ∉ ['#', '1', '3']) (by decide) rest
  · subst hfeed
    exact expandFrom_reference expand (by decide : ';' ∉ ['#', '1', '0']) (by decide) rest
  · subst htab
    exact expandFrom_reference expand (by decide : ';' ∉ ['#', '0', '9']) (by decide) rest
  · subst hamp
    exact expandFrom_reference expand (by decide : ';' ∉ ['a', 'm', 'p']) (by decide) rest
  · subst hopen
    exact expandFrom_reference expand (by decide : ';' ∉ ['l', 't']) (by decide) rest
  · subst hclose
    exact expandFrom_reference expand (by decide : ';' ∉ ['g', 't']) (by decide) rest
  · have hspace : (if isSpace c then ' ' else c) = c := by
      unfold isSpace
      split_ifs with h
      · simp_all
      · rfl
    rw [List.singleton_append, Doctype.expandFrom, hspace]
    · exact hamp
    · exact hopen

/-- **The value of an attribute is what it was.** -/
theorem expandFrom_escapeValue (expand : String → Option (List Char)) (cs : List Char) :
    Doctype.expandFrom expand (cs.flatMap Element.valueChar) none = some cs := by
  induction cs with
  | nil => rfl
  | cons c cs ih => rw [List.flatMap_cons, expandFrom_valueChar, ih, Option.map_some]

/-- A reference in a text is read up to its semicolon. -/
theorem readReference?_append {body : List Char} (hbody : ';' ∉ body) (rest : List Char) :
    readReference? (body ++ ';' :: rest) =
      (Reference.ofBody? body).map fun reference => (reference, rest) := by
  have hspan : (body ++ ';' :: rest).span (· ≠ ';') = (body, ';' :: rest) := by
    refine span_append (fun x hx => ?_) ?_
    · have : x ≠ ';' := fun h => hbody (h ▸ hx)
      simpa using this
    · rintro x ⟨⟩
      simp
  rw [readReference?, hspan]

end Escapes

/-! ### Attributes -/

section Attributes

/-- No mark of a tag is a character of a name. -/
theorem ne_of_isWord {cs : List Char} (h : isWord cs = true) {c : Char}
    (hc : (isNameChar c || c = ':') = false) : c ∉ cs := by
  intro hmem
  have := List.all_eq_true.mp h c hmem
  rw [this] at hc
  cases hc

theorem skipSpace_eq_self {cs : List Char} (h : ∀ c ∈ cs.head?, isSpace c = false) :
    skipSpace cs = cs := by
  cases cs with
  | nil => rfl
  | cons c cs => simp [skipSpace, h c rfl]

theorem isSpace_eq_false_of_isWord {cs rest : List Char} (h : isWord cs = true)
    (hrest : ∀ c ∈ rest.head?, isSpace c = false) : ∀ c ∈ (cs ++ rest).head?, isSpace c = false := by
  cases cs with
  | nil => exact hrest
  | cons c cs =>
    rintro x ⟨⟩
    rw [Bool.eq_false_iff]
    intro hspace
    have hmark : (isNameChar c || c = ':') = false := by
      simp only [isSpace, Bool.or_eq_true, decide_eq_true_eq] at hspace
      rcases hspace with ((rfl | rfl) | rfl) | rfl <;> decide
    exact ne_of_isWord h hmark List.mem_cons_self

/-- An attribute is read as it was written, if its name is one; else it is not read. -/
theorem readAttribute?_written {word value : List Char} (hword : isWord word = true)
    (hvalue : ∀ c ∈ value, isChar c = true) (rest : List Char) :
    readAttribute? (word ++ '=' :: '"' :: (value.flatMap Element.valueChar ++ '"' :: rest)) =
      if isQualified (String.ofList word) then
        some ((String.ofList word, value.flatMap Element.valueChar), rest)
      else none := by
  have hequals : ∀ more : List Char, skipSpace ('=' :: more) = '=' :: more := fun _ => rfl
  have hquote : ∀ more : List Char, skipSpace ('"' :: more) = '"' :: more := fun _ => rfl
  split_ifs with hq
  · rw [isQualified_iff, String.toList_ofList] at hq
    rw [readAttribute?, readQualifiedName?_append hq (by rintro c ⟨⟩; decide)]
    simp [hequals, hquote, readRaw?_escapeValue hvalue]
  · -- what is read of another word ends before the equals sign
    rw [readAttribute?]
    cases hread : readQualifiedName? (word ++ '=' :: '"' ::
        (value.flatMap Element.valueChar ++ '"' :: rest)) with
    | none => rfl
    | some found =>
      obtain ⟨name, more⟩ := found
      obtain ⟨hsplit, hname⟩ := of_readQualifiedName? hread
      have hne : name ≠ word := by
        rintro rfl
        exact hq (isQualified_iff.mpr (by rwa [String.toList_ofList]))
      have hmore : ∃ c tail, c ≠ '=' ∧ more = c :: tail ∧ skipSpace more = more := by
        rcases List.append_eq_append_iff.mp hsplit with ⟨beyond, rfl, hbeyond⟩ | ⟨left, rfl, rfl⟩
        · -- a name does not go over the equals sign
          match beyond, hbeyond with
          | [], _ => exact absurd (List.append_nil word) hne
          | x :: beyond, hbeyond =>
            obtain ⟨rfl, -⟩ := List.cons.inj hbeyond
            exact absurd (List.mem_append_right word List.mem_cons_self)
              (ne_of_isWord (isWord_of_isQualifiedName hname) (by decide))
        · match left with
          | [] => exact absurd (List.append_nil name).symm hne
          | x :: left =>
            rw [isWord_append, Bool.and_eq_true] at hword
            refine ⟨x, _, ?_, rfl, skipSpace_eq_self ?_⟩
            · rintro rfl
              exact ne_of_isWord hword.2 (by decide) List.mem_cons_self
            · exact isSpace_eq_false_of_isWord hword.2 (by rintro c ⟨⟩; decide)
      obtain ⟨c, tail, hc, rfl, hskip⟩ := hmore
      simp [hskip, hc]

/-- A name is written as it is if no namespace stands in it. -/
theorem qualified?_of_isWord {name : String} (h : isWord name.toList = true) :
    Element.qualified? name = none := by
  have hbrace : '\x7b' ∉ name.toList := ne_of_isWord h (by decide)
  unfold Element.qualified?
  split
  · next rest heq => rw [heq] at hbrace; exact absurd List.mem_cons_self hbrace
  · rfl

theorem prefixed_of_isWord {name : String} (h : isWord name.toList = true)
    (bound : Fields String) : Element.prefixed bound name = name := by
  rw [Element.prefixed, qualified?_of_isWord h]

/-- What ends a start tag: the tag may be all of its element. -/
def tagEnd (closed : Bool) : List Char := if closed then [' ', '/', '>'] else ['>']

/-- Behind white space an attribute is read, unless the tag ends. -/
theorem readAttributes?_space {cs : List Char} (hspace : ∀ c ∈ cs.head?, isSpace c = false)
    (hend : ∀ c ∈ cs.head?, c ≠ '>' ∧ c ≠ '/') (fuel : Nat) (acc : List (String × List Char)) :
    readAttributes? (fuel + 1) (' ' :: cs) acc =
      (readAttribute? cs).bind fun found => readAttributes? fuel found.2 (found.1 :: acc) := by
  have hskip : skipSpace (' ' :: cs) = cs := skipSpace_eq_self hspace
  rw [readAttributes?]
  simp only [hskip, show isSpace ' ' = true from rfl, if_true]
  split
  · exact absurd rfl (hend '>' rfl).1
  · exact absurd rfl (hend '/' rfl).2
  · rfl
  · decide
  · exact fun _ h => absurd h (by decide)

/-- **The attributes of a tag are read as they were written, if all their names are names**; else
the tag is not read. -/
theorem readAttributes?_written {attributes : Fields String}
    (h : ∀ a ∈ attributes, isWord a.1.toList = true ∧ isLegible a.2 = true) (closed : Bool)
    (rest : List Char) {fuel : Nat} (hfuel : attributes.length < fuel)
    (acc : List (String × List Char)) :
    readAttributes? fuel (Element.writtenAttributes [] attributes ++ (tagEnd closed ++ rest)) acc =
      if attributes.all fun a => isQualified a.1 then
        some (acc.reverse ++ attributes.map fun a => (a.1, Element.escapeValue a.2), closed, rest)
      else none := by
  induction attributes generalizing fuel acc with
  | nil =>
    obtain ⟨fuel, rfl⟩ := Nat.exists_eq_succ_of_ne_zero (Nat.ne_zero_of_lt hfuel)
    cases closed <;> simp [Element.writtenAttributes, tagEnd, readAttributes?, skipSpace, isSpace]
  | cons a attributes ih =>
    obtain ⟨fuel, rfl⟩ := Nat.exists_eq_succ_of_ne_zero (Nat.ne_zero_of_lt hfuel)
    obtain ⟨name, value⟩ := a
    rw [List.forall_mem_cons] at h
    obtain ⟨⟨hword, hvalue⟩, h⟩ := h
    have hwritten : Element.writtenAttributes [] ((name, value) :: attributes) ++
        (tagEnd closed ++ rest) = ' ' :: (name.toList ++ '=' :: '"' ::
          (value.toList.flatMap Element.valueChar ++ '"' ::
            (Element.writtenAttributes [] attributes ++ (tagEnd closed ++ rest)))) := by
      simp [Element.writtenAttributes, prefixed_of_isWord hword, Element.escapeValue]
    have hfront : ∀ more : List Char, ∀ c ∈ (name.toList ++ '=' :: more).head?,
        c ≠ '>' ∧ c ≠ '/' := by
      intro more c hc
      cases hname : name.toList with
      | nil =>
        rw [hname] at hc
        cases hc
        decide
      | cons x word =>
        rw [hname] at hc hword
        cases hc
        refine ⟨?_, ?_⟩ <;> rintro rfl <;>
          exact ne_of_isWord hword (by decide) List.mem_cons_self
    rw [hwritten, readAttributes?_space (isSpace_eq_false_of_isWord hword (by rintro c ⟨⟩; decide))
      (hfront _), readAttribute?_written hword (List.all_eq_true.mp hvalue), String.ofList_toList,
      List.all_cons]
    cases isQualified name with
    | false => rfl
    | true =>
      have hlength : attributes.length < fuel := by simpa using hfuel
      simp only [if_true, Option.bind_some, ih h hlength, Bool.true_and]
      simp [Element.escapeValue]

end Attributes

end Xml
end TrustFramework
