import TrustFramework.Proofs.Policy.Layout

/-!
# Literals as texts

A value that is no text and no object, such as a list in the place of an element, is written as
its literal.  The literal of a tidy node has legible characters only, so that it can be written
and is read as it was, but for line ends and blanks.

## Main results

* `isLegible_literal` — the literal of a tidy node is legible.
* `Layout.IsTidy.isWritable_list` — so that a root that may repeat can be written.
* `count_readText`, `count_le_count_quoted` — quoting a text, writing and reading it keep its
  brackets.
-/

namespace TrustFramework

open Xml

namespace Policy
namespace Tree

/-- Reading a text leaves its brackets as they are. -/
theorem count_readText (s : String) : (readText s).toList.count '[' = s.toList.count '[' := by
  have hsettle : ∀ cs : List Char, (Text.settleLineEnds cs).count '[' = cs.count '[' := by
    intro cs
    induction cs using Text.lineEnds_induction with
    | nil => rfl
    | pair rest ih => simp [Text.settleLineEnds_pair, ih]
    | alone rest hrest ih => simp [Text.settleLineEnds_return hrest, ih]
    | other c rest hc ih => simp [Text.settleLineEnds_cons_of_ne hc, List.count_cons, ih]
  have hdrop : ∀ cs : List Char, (cs.dropWhile Text.isBlank).count '[' = cs.count '[' := by
    intro cs
    induction cs with
    | nil => rfl
    | cons c cs ih =>
      rw [List.dropWhile_cons]
      split
      · next hc =>
        have hne : c ≠ '[' := by
          rintro rfl
          exact absurd hc (by decide)
        rw [ih, List.count_cons_of_ne hne]
      · rfl
  rw [readText, Text.trim, String.toList_ofList, Text.trimmed, List.count_reverse, hdrop,
    List.count_reverse, hdrop, Text.withLineFeeds, String.toList_ofList, hsettle]

/-- A quoted text has the brackets of the text. -/
theorem count_le_count_quoted (s : String) :
    s.toList.count '[' ≤ (Text.quoted s).toList.count '[' := by
  have hchar : ∀ quote : Char, ∀ cs : List Char,
      cs.count '[' ≤ (cs.flatMap (Text.quotedChar quote)).count '[' := by
    intro quote cs
    induction cs with
    | nil => simp
    | cons c cs ih =>
      rw [List.flatMap_cons, List.count_append]
      by_cases hc : c = '['
      · subst hc
        have hone : 1 ≤ (Text.quotedChar quote '[').count '[' := by
          unfold Text.quotedChar
          split
          · simp
          · simp [Text.isPrintable]
        rw [List.count_cons_self]
        omega
      · rw [List.count_cons_of_ne hc]
        omega
  rw [Text.quoted, String.toList_ofList, List.count_cons, List.count_append]
  have := hchar (Text.quoteFor s.toList) s.toList
  omega

theorem isLegible_append {s t : String} :
    isLegible (s ++ t) = (isLegible s && isLegible t) := by
  rw [isLegible, String.toList_append, List.all_append]
  rfl

theorem isLegible_commaJoined {parts : List String} (h : ∀ s ∈ parts, isLegible s = true) :
    isLegible (Value.commaJoined parts) = true := by
  unfold Value.commaJoined
  induction parts with
  | nil => rfl
  | cons s parts ih =>
    rw [List.forall_mem_cons] at h
    cases parts with
    | nil =>
      rw [String.intercalate_singleton]
      exact h.1
    | cons t parts =>
      have hcomma : isLegible ", " = true := by decide
      rw [String.intercalate_cons_cons, isLegible_append, isLegible_append, h.1, hcomma, ih h.2]
      rfl

theorem isText_hex (width : Nat) (n : Nat) {rest : List Char} (h : IsText rest) :
    IsText (Text.hex width n rest) := by
  have hdigit : ∀ n < 16, isChar (Text.hexDigit n) = true := by decide
  induction width generalizing n rest with
  | zero => exact h
  | succ width ih =>
    exact ih _ (isText_cons.mpr ⟨hdigit _ (Nat.mod_lt _ (by decide)), h⟩)

theorem isText_quotedChar {quote c : Char} (hc : isChar c = true) :
    IsText (Text.quotedChar quote c) := by
  have hescape : ∀ d : Char, isChar d = true → IsText ['\\', d] := fun d hd =>
    isText_cons.mpr ⟨by decide, isText_cons.mpr ⟨hd, isText_nil⟩⟩
  have hcode : IsText (Text.codeEscape c) := by
    have hmark : ∀ mark : Char, isChar mark = true → ∀ width, IsText ('\\' :: mark ::
        Text.hex width c.toNat []) := fun mark hmark width =>
      isText_cons.mpr ⟨by decide, isText_cons.mpr ⟨hmark, isText_hex _ _ isText_nil⟩⟩
    unfold Text.codeEscape
    dsimp only
    split
    · exact hmark 'x' (by decide) 2
    · split
      · exact hmark 'u' (by decide) 4
      · exact hmark 'U' (by decide) 8
  unfold Text.quotedChar
  split
  · exact hescape c hc
  split
  · exact hescape 'n' (by decide)
  split
  · exact hescape 't' (by decide)
  split
  · exact hescape 'r' (by decide)
  split
  · exact isText_cons.mpr ⟨hc, isText_nil⟩
  · exact hcode

theorem isLegible_quoted {s : String} (h : isLegible s = true) :
    isLegible (Text.quoted s) = true := by
  have hquote : isChar (Text.quoteFor s.toList) = true := by
    unfold Text.quoteFor
    split <;> decide
  rw [isLegible, List.all_eq_true] at h
  refine isLegible_ofList.mpr (isText_cons.mpr ⟨hquote, isText_append.mpr ⟨fun c hc => ?_, ?_⟩⟩)
  · obtain ⟨d, hd, hc⟩ := List.mem_flatMap.mp hc
    exact isText_quotedChar (h d hd) c hc
  · exact isText_cons.mpr ⟨hquote, isText_nil⟩

theorem isChar_of_isNameChar {c : Char} (h : isNameChar c = true) : isChar c = true := by
  by_cases hc : c.toNat < 0x80
  · have hall : ∀ n < 0x80, isNameChar (Char.ofNat n) = true → isChar (Char.ofNat n) = true := by
      decide
    have := hall c.toNat hc
    rw [Char.ofNat_toNat] at this
    exact this h
  · -- no letter lies among the last two characters of the basic plane
    have hletters : ∀ r ∈ letters, r.2 < 0xfffe := by decide +kernel
    have hcontinuers : ∀ r ∈ continuers, r.2 < 0xfffe := by decide
    have hrange : ∀ ranges : List (Nat × Nat), (∀ r ∈ ranges, r.2 < 0xfffe) →
        inRanges ranges c.toNat = true → c.toNat < 0xfffe := by
      intro ranges hranges hin
      obtain ⟨r, hr, hin⟩ := List.any_eq_true.mp hin
      simp only [Bool.and_eq_true, decide_eq_true_eq] at hin
      exact hin.2.trans_lt (hranges r hr)
    have hlt : c.toNat < 0xfffe := by
      unfold isNameChar at h
      simp only [hc, if_false, Bool.or_eq_true] at h
      rcases h with h | h
      · exact hrange _ hletters h
      · exact hrange _ hcontinuers h
    unfold isChar
    have hge : ¬ c.toNat < 0x20 := by omega
    simp only [hge, if_false, Bool.and_eq_true, decide_eq_true_eq]
    omega

theorem isLegible_of_isWord {s : String} (h : isWord s.toList = true) : isLegible s = true := by
  rw [isWord, List.all_eq_true] at h
  refine List.all_eq_true.mpr fun c hc => ?_
  have := h c hc
  rw [Bool.or_eq_true, decide_eq_true_eq] at this
  rcases this with hname | rfl
  · exact isChar_of_isNameChar hname
  · decide

theorem literal_object (fields : Fields Value) : (Value.object fields).literal =
    "\x7b" ++ Value.commaJoined (fields.map fun e => Text.quoted e.1 ++ ": " ++ e.2.literal) ++
      "\x7d" := by
  have hfields : Value.fieldLiterals fields =
      fields.map fun e => Text.quoted e.1 ++ ": " ++ e.2.literal := by
    induction fields with
    | nil => rw [Value.fieldLiterals]; rfl
    | cons e fields ih =>
      obtain ⟨name, v⟩ := e
      rw [Value.fieldLiterals, ih, List.map_cons]
  rw [Value.literal, hfields]

theorem literal_list (items : List Value) : (Value.list items).literal =
    "[" ++ Value.commaJoined (items.map Value.literal) ++ "]" := by
  have hitems : Value.itemLiterals items = items.map Value.literal := by
    induction items with
    | nil => rw [Value.itemLiterals]; rfl
    | cons v items ih => rw [Value.itemLiterals, ih, List.map_cons]
  rw [Value.literal, hitems]

theorem isLegible_literal_object {fields : Fields Value}
    (h : ∀ e ∈ fields, isLegible e.1 = true ∧ isLegible e.2.literal = true) :
    isLegible (Value.object fields).literal = true := by
  have hmarks : isLegible "\x7b" = true ∧ isLegible "\x7d" = true ∧ isLegible ": " = true := by
    decide
  have hparts : ∀ s ∈ fields.map fun e => Text.quoted e.1 ++ ": " ++ e.2.literal,
      isLegible s = true := by
    intro s hs
    obtain ⟨e, he, rfl⟩ := List.mem_map.mp hs
    rw [isLegible_append, isLegible_append, isLegible_quoted (h e he).1, hmarks.2.2, (h e he).2]
    rfl
  rw [literal_object, isLegible_append, isLegible_append, isLegible_commaJoined hparts, hmarks.1,
    hmarks.2.1]
  rfl

theorem isLegible_literal_list {items : List Value} (h : ∀ v ∈ items, isLegible v.literal = true) :
    isLegible (Value.list items).literal = true := by
  have hmarks : isLegible "[" = true ∧ isLegible "]" = true := by decide
  rw [literal_list, isLegible_append, isLegible_append,
    isLegible_commaJoined (List.forall_mem_map.mpr h), hmarks.1, hmarks.2]
  rfl

theorem isLegible_literal_of_itemsOf {v : Value} (h : ∀ w ∈ itemsOf v, isLegible w.literal = true) :
    isLegible v.literal = true := by
  cases v with
  | list items => exact isLegible_literal_list h
  | _ => exact h _ List.mem_cons_self

/-- The literal of a tidy layout is legible, if those of what is below are. -/
theorem Layout.IsTidy.isLegible_literal {l : Layout} (tidy : l.IsTidy)
    (items : ∀ e ∈ l.children, ∀ v ∈ itemsOf e.2, isLegible v.literal = true) :
    isLegible (Value.object l.fields).literal = true := by
  refine isLegible_literal_object (List.forall_mem_append.mpr
    ⟨List.forall_mem_append.mpr ⟨fun e he => ?_, fun e he => ?_⟩, fun e he => ?_⟩)
  · obtain ⟨a, ha, rfl⟩ := List.mem_map.mp he
    have hmark : isLegible "@_" = true := by decide
    refine ⟨?_, isLegible_quoted (tidy.given a ha).2⟩
    rw [attributeField, isLegible_append, hmark, isLegible_of_isWord (tidy.given a ha).1]
    rfl
  · exact ⟨isLegible_of_isWord (isWord_of_isName (tidy.names e he)),
      isLegible_literal_of_itemsOf (items e he)⟩
  · have htext : isLegible textField = true := by decide
    rw [eq_of_mem_textFields he]
    exact ⟨htext, isLegible_quoted tidy.legible⟩

/-- The literal of a tidy node is legible. -/
theorem isLegible_literal {v : Value} (hv : IsTidy v) : isLegible v.literal = true := by
  induction hv with
  | text legible _ => exact isLegible_quoted legible
  | object tidy _ _ ih => exact tidy.isLegible_literal ih

/-- A root that may repeat can be written all the same. -/
theorem Layout.IsTidy.isWritable_list {l : Layout} (tidy : l.IsTidy)
    (items : ∀ e ∈ l.children, ∀ v ∈ itemsOf e.2, Tree.IsTidy v) :
    IsWritable (.list [.object l.fields]) := by
  refine .atom rfl (isLegible_literal_list ?_)
  simpa using tidy.isLegible_literal fun e he v hv => Tree.isLegible_literal (items e he v hv)

end Tree
end Policy

end TrustFramework
