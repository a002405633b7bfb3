import TrustFramework.Proofs.Entity.Collection
import TrustFramework.Proofs.Xml.Characters
import TrustFramework.Xml.Reader

/-!
# What a document declares can be written

The declarations of a document hold nothing that a document could not: the names in them are made
of the characters of names, and the texts that stand between quotes of characters a document may
hold.  So the value of an attribute has such characters only, whether its tag gives it, an entity
stands in it, or it comes from a declaration.

## Main definitions

* `IsText` — all characters of a text may stand in documents.
* `Doctype.IsSound` — entities stand for such texts, and declared attributes have names and
  values like those of a document.

## Main results

* `IsText.attributeValue?` — the values of attributes are such texts.
* `Doctype.isSound_of_readType?` — **what a document declares is sound.**
-/

namespace TrustFramework
namespace Xml

/-- All characters of a text may stand in a document. -/
def IsText (cs : List Char) : Prop := ∀ c ∈ cs, isChar c = true

theorem isText_nil : IsText [] := by simp [IsText]

theorem isText_cons {c : Char} {cs : List Char} :
    IsText (c :: cs) ↔ isChar c = true ∧ IsText cs := List.forall_mem_cons

theorem isText_append {cs more : List Char} :
    IsText (cs ++ more) ↔ IsText cs ∧ IsText more := List.forall_mem_append

theorem IsText.reverse {cs : List Char} (h : IsText cs) : IsText cs.reverse :=
  fun c hc => h c (List.mem_reverse.mp hc)

theorem isLegible_ofList {cs : List Char} : isLegible (String.ofList cs) = true ↔ IsText cs := by
  rw [isLegible, String.toList_ofList, List.all_eq_true]
  rfl

/-! ### References -/

theorem isChar_of_characterOf? {n : Nat} {c : Char} (h : characterOf? n = some c) :
    isChar c = true := by
  unfold characterOf? at h
  split at h
  · dsimp only at h
    split at h
    · next hchar =>
      cases h
      exact hchar
    · cases h
  · cases h

/-- A reference to a character refers to one that may stand in a document. -/
theorem isChar_of_ofBody? {body : List Char} {c : Char}
    (h : Reference.ofBody? body = some (.character c)) : isChar c = true := by
  have hnumber : ∀ n? : Option Nat,
      (n?.bind characterOf?).map Reference.character = some (.character c) → isChar c = true := by
    intro n? hn
    obtain ⟨d, hd, hcharacter⟩ := Option.map_eq_some_iff.mp hn
    cases hcharacter
    obtain ⟨n, -, hn⟩ := Option.bind_eq_some_iff.mp hd
    exact isChar_of_characterOf? hn
  have hknown : ∀ e ∈ Reference.known, isChar e.2 = true := by decide
  unfold Reference.ofBody? at h
  split at h
  · split at h
    · cases h
    · exact hnumber _ h
  · split at h
    · cases h
    · exact hnumber _ h
  · split at h
    · next name _ =>
      rw [Option.some.injEq] at h
      split at h
      · next d hget =>
        cases h
        exact hknown _ (Fields.mem_of_get? hget)
      · cases h
    · cases h

theorem isText_of_keepName? {body text : List Char} (hbody : IsText body)
    (h : keepName? body = some text) : IsText text := by
  unfold keepName? at h
  split at h
  · obtain ⟨reference, hreference, hkept⟩ := Option.bind_eq_some_iff.mp h
    cases reference with
    | character c =>
      cases hkept
      exact isText_cons.mpr ⟨isChar_of_ofBody? hreference, isText_nil⟩
    | entity name => cases hkept
  · obtain ⟨reference, -, rfl⟩ := Option.map_eq_some_iff.mp h
    refine isText_cons.mpr ⟨by decide, isText_append.mpr ⟨hbody, ?_⟩⟩
    exact isText_cons.mpr ⟨by decide, isText_nil⟩

/-- An entity stands for a text of the characters between its quotes, and those it refers to. -/
theorem isText_of_entityText? {cs : List Char} (hcs : IsText cs) {body? : Option (List Char)}
    (hbody : ∀ body, body? = some body → IsText body) {text : List Char}
    (h : entityText? cs body? = some text) : IsText text := by
  induction cs, body? using entityText?.induct generalizing text with
  | case1 =>
    cases h
    exact isText_nil
  | case2 => cases h
  | case3 rest body ih =>
    rw [entityText?] at h
    obtain ⟨kept, hkept, h⟩ := Option.bind_eq_some_iff.mp h
    obtain ⟨tail, htail, h⟩ := Option.bind_eq_some_iff.mp h
    cases h
    exact isText_append.mpr ⟨isText_of_keepName? (hbody body rfl).reverse hkept,
      ih (isText_cons.mp hcs).2 (by simp) htail⟩
  | case4 c rest body hc ih =>
    rw [entityText?] at h
    · refine ih (isText_cons.mp hcs).2 ?_ h
      rintro _ ⟨⟩
      exact isText_cons.mpr ⟨(isText_cons.mp hcs).1, hbody body rfl⟩
    · exact hc
  | case5 rest ih =>
    rw [entityText?] at h
    refine ih (isText_cons.mp hcs).2 ?_ h
    rintro _ ⟨⟩
    exact isText_nil
  | case6 => cases h
  | case7 c rest hamp hpercent ih =>
    rw [entityText?] at h
    · obtain ⟨tail, htail, rfl⟩ := Option.map_eq_some_iff.mp h
      exact isText_cons.mpr ⟨(isText_cons.mp hcs).1, ih (isText_cons.mp hcs).2 (by simp) htail⟩
    · exact hamp
    · exact hpercent

/-- What an entity stands for may stand in a document. -/
def Entity.IsSound : Entity → Prop
  | .internal text => IsText text
  | _ => True

/-! ### Attribute values -/

theorem isText_of_expandFrom {expand : String → Option (List Char)}
    (hexpand : ∀ name text, expand name = some text → IsText text) {cs : List Char}
    (hcs : IsText cs) {body? : Option (List Char)} {text : List Char}
    (h : Doctype.expandFrom expand cs body? = some text) : IsText text := by
  induction cs, body? using Doctype.expandFrom.induct generalizing text with
  | case1 =>
    cases h
    exact isText_nil
  | case2 => cases h
  | case3 rest body hbody =>
    rw [Doctype.expandFrom, hbody] at h
    cases h
  | case4 rest body c hbody ih =>
    rw [Doctype.expandFrom, hbody] at h
    obtain ⟨tail, htail, rfl⟩ := Option.map_eq_some_iff.mp h
    exact isText_cons.mpr ⟨isChar_of_ofBody? hbody, ih (isText_cons.mp hcs).2 htail⟩
  | case5 rest body name hbody ih =>
    rw [Doctype.expandFrom, hbody] at h
    obtain ⟨front, hfront, h⟩ := Option.bind_eq_some_iff.mp h
    obtain ⟨tail, htail, h⟩ := Option.bind_eq_some_iff.mp h
    cases h
    exact isText_append.mpr ⟨hexpand name front hfront, ih (isText_cons.mp hcs).2 htail⟩
  | case6 c rest body hc ih =>
    rw [Doctype.expandFrom] at h
    · exact ih (isText_cons.mp hcs).2 h
    · exact hc
  | case7 rest ih =>
    rw [Doctype.expandFrom] at h
    exact ih (isText_cons.mp hcs).2 h
  | case8 => cases h
  | case9 c rest hamp hless ih =>
    rw [Doctype.expandFrom] at h
    · obtain ⟨tail, htail, rfl⟩ := Option.map_eq_some_iff.mp h
      refine isText_cons.mpr ⟨?_, ih (isText_cons.mp hcs).2 htail⟩
      split
      · decide
      · exact (isText_cons.mp hcs).1
    · exact hamp
    · exact hless

theorem isText_squeeze {cs : List Char} (h : IsText cs) : IsText (Doctype.squeeze cs) := by
  have hreduced : ∀ cs : List Char, IsText cs → IsText (cs.foldr
      (fun c tail => if c = ' ' ∧ (tail = [] ∨ tail.head? = some ' ') then tail else c :: tail)
      []) := by
    intro cs
    induction cs with
    | nil => exact fun _ => isText_nil
    | cons c cs ih =>
      intro hcs
      rw [List.foldr_cons]
      split
      · exact ih (isText_cons.mp hcs).2
      · exact isText_cons.mpr ⟨(isText_cons.mp hcs).1, ih (isText_cons.mp hcs).2⟩
  exact fun c hc => hreduced cs h c ((List.dropWhile_sublist _).subset hc)

namespace Doctype

/-- The names and texts that are declared are like those in a document. -/
structure IsSound (d : Doctype) : Prop where
  entities : ∀ e ∈ d.entities, e.2.IsSound
  rules : ∀ e ∈ d.attributes, ∀ rule ∈ e.2, isWord rule.name.toList = true ∧
    ∀ value, rule.preset = some value → IsText value

variable {d : Doctype}

theorem IsSound.expandEntity (hd : d.IsSound) (depth : Nat) :
    ∀ name text, d.expandEntity depth name = some text → IsText text := by
  induction depth with
  | zero =>
    intro name text h
    cases h
  | succ depth ih =>
    intro name text h
    rw [Doctype.expandEntity] at h
    split at h
    · next entity hget =>
      exact isText_of_expandFrom ih (hd.entities _ (Fields.mem_of_get? hget)) h
    · cases h
    · split at h
      · cases h
        exact isText_nil
      · cases h

theorem IsSound.expandValue? (hd : d.IsSound) {raw value : List Char} (hraw : IsText raw)
    (h : d.expandValue? raw = some value) : IsText value :=
  isText_of_expandFrom (hd.expandEntity d.depth) hraw h

/-- **The values of attributes are texts of a document.** -/
theorem IsSound.attributeValue? (hd : d.IsSound) {element name : String} {raw value : List Char}
    (hraw : IsText raw) (h : d.attributeValue? element name raw = some value) : IsText value := by
  obtain ⟨expanded, hexpanded, rfl⟩ := Option.map_eq_some_iff.mp h
  have htext := hd.expandValue? hraw hexpanded
  split
  · exact isText_squeeze htext
  · exact htext

theorem IsSound.rulesOf (hd : d.IsSound) {element : String} {rule : AttributeRule}
    (h : rule ∈ (d.attributes.get? element).getD []) : isWord rule.name.toList = true ∧
      ∀ value, rule.preset = some value → IsText value := by
  cases hget : d.attributes.get? element with
  | none =>
    rw [hget] at h
    cases h
  | some rules =>
    rw [hget] at h
    exact hd.rules _ (Fields.mem_of_get? hget) rule h

/-- So are the attributes that a tag need not give. -/
theorem IsSound.presets (hd : d.IsSound) {element : String} {given : List String}
    {a : String × List Char} (h : a ∈ d.presets element given) :
    isWord a.1.toList = true ∧ IsText a.2 := by
  obtain ⟨rule, hrule, ha⟩ := List.mem_filterMap.mp h
  split at ha
  · cases ha
  · obtain ⟨value, hvalue, rfl⟩ := Option.map_eq_some_iff.mp ha
    obtain ⟨hname, hpreset⟩ := hd.rulesOf hrule
    exact ⟨hname, hpreset value hvalue⟩

end Doctype

/-! ### The parts of a declaration -/

/-- The names and the quoted texts among the parts of a declaration. -/
def Mark.IsSound : Mark → Prop
  | .name text _ => isWord text.toList = true
  | .literal text => IsText text
  | _ => True

theorem isText_of_untilQuote? {quote : Char} {cs acc text rest : List Char} (hacc : IsText acc)
    (h : untilQuote? quote cs acc = some (text, rest)) : IsText text := by
  induction cs generalizing acc with
  | nil => cases h
  | cons c cs ih =>
    rw [untilQuote?] at h
    split at h
    · cases h
      exact hacc.reverse
    · split at h
      · next hc => exact ih (isText_cons.mpr ⟨hc, hacc⟩) h
      · cases h

theorem isSound_of_readWord? {cs rest : List Char} {mark : Mark}
    (h : readWord? cs = some (mark, rest)) : mark.IsSound := by
  unfold readWord? at h
  generalize hspan : cs.span (fun c => isNameChar c || c = ':') = found at h
  obtain ⟨word, behind⟩ := found
  have hword : isWord word = true := List.all_eq_true.mpr (of_span hspan).2.1
  have hname : ∀ qualified, (Mark.name (String.ofList word) qualified).IsSound := fun _ => by
    rwa [Mark.IsSound, String.toList_ofList]
  dsimp only at h
  split at h
  · cases h
  · next first tail =>
    split at h
    · split at h
      · split at h
        · cases h
          trivial
        · cases h
      · split at h
        · -- the mark is a name of one kind or the other, or a mere token
          cases h
          split
          · exact hname _
          · split
            · exact hname _
            · trivial
        · cases h
    · cases h

theorem isSound_of_readMark? {cs rest : List Char} {mark : Mark}
    (h : readMark? cs = some (mark, rest)) : mark.IsSound := by
  unfold readMark? at h
  split at h
  · cases h
  · next c cs' _ =>
    rcases ite_eq_iff.mp h with ⟨-, h⟩ | ⟨-, h⟩
    · obtain ⟨⟨text, behind⟩, htext, h⟩ := Option.bind_eq_some_iff.mp h
      rcases ite_eq_iff.mp h with ⟨-, h⟩ | ⟨-, h⟩ <;> cases h
      exact isText_of_untilQuote? isText_nil htext
    rcases ite_eq_iff.mp h with ⟨-, h⟩ | ⟨-, h⟩
    · rcases ite_eq_iff.mp h with ⟨-, h⟩ | ⟨-, h⟩ <;> cases h
      trivial
    -- the marks of one character
    iterate 6
      rcases ite_eq_iff.mp h with ⟨-, h⟩ | ⟨-, h⟩
      · cases h
        trivial
    rcases ite_eq_iff.mp h with ⟨-, h⟩ | ⟨-, h⟩
    · obtain ⟨⟨text, behind⟩, -, h⟩ := Option.bind_eq_some_iff.mp h
      rcases ite_eq_iff.mp h with ⟨-, h⟩ | ⟨-, h⟩ <;> cases h
      trivial
    rcases ite_eq_iff.mp h with ⟨-, h⟩ | ⟨-, h⟩
    · cases cs' with
      | nil => cases h
      | cons sign behind =>
        rcases ite_eq_iff.mp h with ⟨-, h⟩ | ⟨-, h⟩
        · cases h
          trivial
        · rcases ite_eq_iff.mp h with ⟨-, h⟩ | ⟨-, h⟩ <;> cases h
          trivial
    · exact isSound_of_readWord? h

theorem isSound_of_readMarks? {fuel : Nat} {cs rest : List Char} {acc marks : List Mark}
    (hacc : ∀ mark ∈ acc, mark.IsSound) (h : readMarks? fuel cs acc = some (marks, rest)) :
    ∀ mark ∈ marks, mark.IsSound := by
  induction fuel generalizing cs acc with
  | zero => cases h
  | succ fuel ih =>
    obtain ⟨⟨mark, behind⟩, hmark, h⟩ := Option.bind_eq_some_iff.mp h
    dsimp only at h
    split at h
    · cases h
      exact fun mark hmem => hacc mark (List.mem_reverse.mp hmem)
    · exact ih (List.forall_mem_cons.mpr ⟨isSound_of_readMark? hmark, hacc⟩) h

theorem isSound_of_entityOf? {keep : Bool} {parts : List Mark} {entity : Entity}
    (hparts : ∀ mark ∈ parts, mark.IsSound) (h : entityOf? keep parts = some entity) :
    entity.IsSound := by
  unfold entityOf? at h
  split at h
  · next text =>
    split at h
    · obtain ⟨value, hvalue, rfl⟩ := Option.map_eq_some_iff.mp h
      have htext : IsText text := hparts (.literal text) List.mem_cons_self
      exact isText_of_entityText? htext (by simp) hvalue
    · cases h
      exact isText_nil
  · split at h <;> cases h <;> trivial

/-! ### Taking declarations in -/

/-- Behind the alternatives of a type stand parts of the declaration still. -/
theorem isSuffix_of_enumeration? {namesOnly : Bool} {parts rest : List Mark}
    (h : enumeration? namesOnly parts = some rest) : rest <:+ parts := by
  have htwo : ∀ (first second : Mark) {parts : List Mark}, rest <:+ parts →
      rest <:+ first :: second :: parts := fun first second _ hrest =>
    hrest.trans (List.suffix_append [first, second] _)
  induction parts using enumeration?.induct namesOnly with
  | case1 _ qualified parts hno => simp [enumeration?, hno] at h
  | case2 _ qualified parts hyes ih =>
    rw [enumeration?, if_neg hyes] at h
    exact htwo _ _ (ih h)
  | case3 parts hno => simp [enumeration?, hno] at h
  | case4 parts hyes ih =>
    rw [enumeration?, if_neg hyes] at h
    exact htwo _ _ (ih h)
  | case5 _ qualified parts hno => simp [enumeration?, hno] at h
  | case6 _ qualified parts hyes =>
    rw [enumeration?, if_neg hyes] at h
    cases h
    exact htwo _ _ (List.suffix_refl _)
  | case7 parts hno => simp [enumeration?, hno] at h
  | case8 parts hyes =>
    rw [enumeration?, if_neg hyes] at h
    cases h
    exact htwo _ _ (List.suffix_refl _)
  | case9 parts h1 h2 h3 h4 =>
    rw [enumeration?] at h
    · cases h
    all_goals assumption

theorem isSuffix_of_attributeType? {parts rest : List Mark} {keyword : String}
    (h : attributeType? parts = some (keyword, rest)) : rest <:+ parts := by
  unfold attributeType? at h
  split at h
  · obtain ⟨_, hrest, h⟩ := Option.map_eq_some_iff.mp h
    cases h
    exact (isSuffix_of_enumeration? hrest).trans (List.suffix_append [_, _] _)
  · split at h <;> cases h
    exact List.suffix_cons _ _
  · obtain ⟨_, hrest, h⟩ := Option.map_eq_some_iff.mp h
    cases h
    exact (isSuffix_of_enumeration? hrest).trans (List.suffix_cons _ _)
  · cases h

theorem of_attributeDefault? {parts rest : List Mark} {preset : Option (List Char)}
    (hparts : ∀ mark ∈ parts, mark.IsSound)
    (h : attributeDefault? parts = some (preset, rest)) :
    (∀ value, preset = some value → IsText value) ∧ ∀ mark ∈ rest, mark.IsSound := by
  unfold attributeDefault? at h
  split at h
  · cases h
    exact ⟨by simp, fun mark hmark => hparts mark (List.mem_cons_of_mem _ hmark)⟩
  · cases h
    exact ⟨by simp, fun mark hmark => hparts mark (List.mem_cons_of_mem _ hmark)⟩
  · next text _ =>
    cases h
    have htext : IsText text := hparts (.literal text) (by simp)
    exact ⟨by rintro _ ⟨⟩; exact htext,
      fun mark hmark => hparts mark (List.mem_cons_of_mem _ (List.mem_cons_of_mem _ hmark))⟩
  · next text _ =>
    cases h
    have htext : IsText text := hparts (.literal text) (by simp)
    exact ⟨by rintro _ ⟨⟩; exact htext, fun mark hmark => hparts mark (List.mem_cons_of_mem _ hmark)⟩
  · cases h

namespace Doctype

variable {d : Doctype}

theorem IsSound.addRule (hd : d.IsSound) (element : String) {rule : AttributeRule}
    (hname : isWord rule.name.toList = true)
    (hvalue : ∀ value, rule.preset = some value → IsText value) (isId : Bool) :
    (d.addRule element rule isId).IsSound := by
  unfold Doctype.addRule
  dsimp only
  split
  · exact hd
  · refine ⟨hd.entities, fun e he => ?_⟩
    rcases Fields.mem_set he with he | rfl
    · exact hd.rules e he
    · intro r hr
      rcases List.mem_append.mp hr with hr | hr
      · exact hd.rulesOf hr
      · rw [List.mem_singleton.mp hr]
        exact ⟨hname, hvalue⟩

theorem IsSound.settlePreset? (hd : d.IsSound) {tokens : Bool} {preset : Option (List Char)}
    {settled : Option (List Char)} (hpreset : ∀ value, preset = some value → IsText value)
    (h : d.settlePreset? tokens preset = some settled) :
    ∀ value, settled = some value → IsText value := by
  cases preset with
  | none =>
    cases h
    simp
  | some raw =>
    obtain ⟨expanded, hexpanded, h⟩ := Option.map_eq_some_iff.mp h
    have htext := hd.expandValue? (hpreset raw rfl) hexpanded
    rintro value rfl
    cases h
    split
    · exact isText_squeeze htext
    · exact htext

theorem IsSound.addRules? {fuel : Nat} {element : String} {parts : List Mark} {d' : Doctype}
    (hd : d.IsSound) (hparts : ∀ mark ∈ parts, mark.IsSound)
    (h : d.addRules? element fuel parts = some d') : d'.IsSound := by
  induction fuel generalizing d parts with
  | zero =>
    cases parts with
    | nil =>
      cases h
      exact hd
    | cons mark parts => cases h
  | succ fuel ih =>
    unfold Doctype.addRules? at h
    split at h
    · cases h
      exact hd
    · cases h
    · next name _ parts' hfuel =>
      cases hfuel
      have hname : isWord name.toList = true := hparts (.name name _) List.mem_cons_self
      obtain ⟨⟨type, typed⟩, htype, h⟩ := Option.bind_eq_some_iff.mp h
      obtain ⟨⟨preset, rest⟩, hpreset, h⟩ := Option.bind_eq_some_iff.mp h
      have htyped : ∀ mark ∈ typed, mark.IsSound := fun mark hmark =>
        hparts mark (List.mem_cons_of_mem _ ((isSuffix_of_attributeType? htype).subset hmark))
      obtain ⟨hvalue, hrest⟩ := of_attributeDefault? htyped hpreset
      dsimp only at h
      split at h
      · obtain ⟨settled, hsettled, h⟩ := Option.bind_eq_some_iff.mp h
        exact ih (hd.addRule element hname (hd.settlePreset? hvalue hsettled) _) hrest h
      · exact ih hd hrest h
    · cases h

theorem IsSound.addEntity (hd : d.IsSound) (name : String) {entity : Entity}
    (hentity : entity.IsSound) : (d.addEntity name entity).IsSound := by
  unfold Doctype.addEntity
  split
  · exact hd
  · refine ⟨fun e he => ?_, hd.rules⟩
    rcases Fields.mem_set he with he | rfl
    · exact hd.entities e he
    · exact hentity

theorem IsSound.declare? {keyword : String} {parts : List Mark} {d' : Doctype}
    (hd : d.IsSound) (hparts : ∀ mark ∈ parts, mark.IsSound)
    (h : d.declare? keyword parts = some d') : d'.IsSound := by
  unfold Doctype.declare? at h
  split at h
  · obtain ⟨-, -, rfl⟩ := Option.map_eq_some_iff.mp h
    exact hd
  · next name parts =>
    obtain ⟨entity, hentity, rfl⟩ := Option.map_eq_some_iff.mp h
    exact hd.addEntity name (isSound_of_entityOf?
      (fun mark hmark => hparts mark (List.mem_cons_of_mem _ hmark)) hentity)
  · next element _ parts =>
    exact hd.addRules? (fun mark hmark => hparts mark (List.mem_cons_of_mem _ hmark)) h
  · split at h <;> cases h
    exact hd
  · split at h <;> cases h
    exact hd
  · cases h

end Doctype

theorem isSound_of_readSubset? {fuel : Nat} {d d' : Doctype} {cs rest : List Char}
    (hd : d.IsSound) (h : readSubset? fuel d cs = some (d', rest)) : d'.IsSound := by
  induction fuel generalizing d cs with
  | zero => cases h
  | succ fuel ih =>
    rw [readSubset?] at h
    split at h
    · cases h
    · cases h
      exact hd
    · obtain ⟨behind, -, h⟩ := Option.bind_eq_some_iff.mp h
      exact ih hd h
    · obtain ⟨behind, -, h⟩ := Option.bind_eq_some_iff.mp h
      exact ih hd h
    · dsimp only at h
      split at h
      · obtain ⟨⟨parts, behind⟩, hparts, h⟩ := Option.bind_eq_some_iff.mp h
        obtain ⟨d'', hd'', h⟩ := Option.bind_eq_some_iff.mp h
        exact ih (hd.declare? (isSound_of_readMarks? (by simp) hparts) hd'') h
      · cases h
    · split at h
      · exact ih (d := { d with outside := true, reading := d.standalone })
          ⟨hd.entities, hd.rules⟩ h
      · cases h
    · cases h

theorem isSound_of_nothing (standalone outside : Bool) :
    ({ standalone := standalone, outside := outside } : Doctype).IsSound :=
  ⟨by simp, by simp⟩

theorem isSound_of_readDoctype? {standalone : Bool} {d : Doctype} {cs rest : List Char}
    (h : readDoctype? standalone cs = some (d, rest)) : d.IsSound := by
  unfold readDoctype? at h
  obtain ⟨⟨parts, bracket, behind⟩, -, h⟩ := Option.bind_eq_some_iff.mp h
  have hend : ∀ outside : Bool, (if bracket then
      (readSubset? (behind.length + 1) { standalone := standalone, outside := outside } behind).bind
        fun found => readEnd? found.1 found.2
      else some ({ standalone := standalone, outside := outside }, behind)) = some (d, rest) →
        d.IsSound := by
    intro outside h
    split at h
    · obtain ⟨⟨d', behind'⟩, hd', h⟩ := Option.bind_eq_some_iff.mp h
      dsimp only [readEnd?] at h
      split at h <;> cases h
      exact isSound_of_readSubset? (isSound_of_nothing _ _) hd'
    · cases h
      exact isSound_of_nothing _ _
  dsimp only at h
  split at h
  · exact hend false h
  · split at h
    · exact hend true h
    · cases h
  · cases h

/-- **What a document declares is sound.** -/
theorem isSound_of_readType? {standalone : Bool} {d : Doctype} {cs rest : List Char}
    (h : readType? standalone cs = some (d, rest)) : d.IsSound := by
  unfold readType? at h
  split at h
  · split at h
    · exact isSound_of_readDoctype? h
    · cases h
  · cases h
    exact isSound_of_nothing _ _

end Xml
end TrustFramework
