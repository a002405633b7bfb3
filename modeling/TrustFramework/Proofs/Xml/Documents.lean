import TrustFramework.Proofs.Xml.Declarations
import TrustFramework.Proofs.Xml.Names

/-!
# What is read of a document can be written

Reading admits a name only where a name may stand and a character only where a document may hold
it, so all that it collects is made of names and such characters.  One invariant says so of the
elements that are open; every tag, character and reference keeps it, and so does the text that an
entity stands for, however deep the references in it go.

## Main definitions

* `IsGiven` — an attribute as it stands in a tag or in a declaration.
* `Element.IsSound`, `Reading.IsSound` — the names and texts of an element, and of all that was
  read so far, could stand in a document.

## Main results

* `Reading.IsSound.readContent`, `isSound_of_expandContent` — reading content keeps the invariant.
* `Document.isSound_of_read` — **the names and texts of a document that was read can be written.**
-/

namespace TrustFramework
namespace Xml

/-! ### Attributes -/

/-- An attribute as it is given: a name made of the characters of names, and a legible value. -/
def IsGiven (a : String × String) : Prop := isWord a.1.toList = true ∧ isLegible a.2 = true

/-- An attribute with its name resolved. -/
def IsResolved (a : String × String) : Prop :=
  (∃ uri bare, a.1 = clark uri bare ∧ '\x7d' ∉ uri.toList ∧ isWord bare.toList = true) ∧
    isLegible a.2 = true

theorem isText_of_readRaw? {quote : Char} {cs acc raw rest : List Char} (hacc : IsText acc)
    (h : readRaw? quote cs acc = some (raw, rest)) : IsText raw := by
  induction cs generalizing acc with
  | nil => cases h
  | cons c cs ih =>
    rw [readRaw?] at h
    split at h
    · cases h
      exact hacc.reverse
    · split at h
      · next hc => exact ih (isText_cons.mpr ⟨hc.1, hacc⟩) h
      · cases h

theorem of_readAttribute? {cs rest : List Char} {a : String × List Char}
    (h : readAttribute? cs = some (a, rest)) : isWord a.1.toList = true ∧ IsText a.2 := by
  obtain ⟨⟨name, behind⟩, hname, h⟩ := Option.bind_eq_some_iff.mp h
  obtain ⟨-, hname⟩ := of_readQualifiedName? hname
  dsimp only at h
  split at h
  · split at h
    · split at h
      · obtain ⟨⟨raw, behind'⟩, hraw, h⟩ := Option.bind_eq_some_iff.mp h
        cases h
        refine ⟨?_, isText_of_readRaw? isText_nil hraw⟩
        rw [String.toList_ofList]
        exact isWord_of_isQualifiedName hname
      · cases h
    · cases h
  · cases h

theorem of_readAttributes? {fuel : Nat} {cs rest : List Char} {closed : Bool}
    {acc raw : List (String × List Char)}
    (hacc : ∀ a ∈ acc, isWord a.1.toList = true ∧ IsText a.2)
    (h : readAttributes? fuel cs acc = some (raw, closed, rest)) :
    ∀ a ∈ raw, isWord a.1.toList = true ∧ IsText a.2 := by
  have hdone : ∀ a ∈ acc.reverse, isWord a.1.toList = true ∧ IsText a.2 :=
    fun a ha => hacc a (List.mem_reverse.mp ha)
  induction fuel generalizing cs acc with
  | zero => cases h
  | succ fuel ih =>
    unfold readAttributes? at h
    split at h
    · cases h
      exact hdone
    · cases h
      exact hdone
    · split at h
      · split at h
        · cases h
          exact hdone
        · cases h
          exact hdone
        · obtain ⟨⟨given, behind⟩, hgiven, h⟩ := Option.bind_eq_some_iff.mp h
          have hmore : ∀ a ∈ given :: acc, isWord a.1.toList = true ∧ IsText a.2 :=
            List.forall_mem_cons.mpr ⟨of_readAttribute? hgiven, hacc⟩
          exact ih hmore h fun a ha => hmore a (List.mem_reverse.mp ha)
      · cases h
    · cases h

theorem isGiven_of_settleValues? {d : Doctype} (hd : d.IsSound) {element : String}
    {raw : List (String × List Char)} {given : List (String × String)}
    (hraw : ∀ a ∈ raw, isWord a.1.toList = true ∧ IsText a.2)
    (h : settleValues? d element raw = some given) : ∀ a ∈ given, IsGiven a := by
  induction raw generalizing given with
  | nil =>
    cases h
    simp
  | cons a raw ih =>
    obtain ⟨name, text⟩ := a
    rw [List.forall_mem_cons] at hraw
    obtain ⟨value, hvalue, h⟩ := Option.bind_eq_some_iff.mp h
    obtain ⟨rest, hrest, h⟩ := Option.bind_eq_some_iff.mp h
    cases h
    refine List.forall_mem_cons.mpr ⟨⟨hraw.1.1, ?_⟩, ih hraw.2 hrest⟩
    exact isLegible_ofList.mpr (hd.attributeValue? hraw.1.2 hvalue)

theorem isResolved_of_resolveAll? {scope : Fields String} (hscope : IsSoundScope scope)
    {given resolved : List (String × String)} (hgiven : ∀ a ∈ given, IsGiven a)
    (h : resolveAll? scope given = some resolved) : ∀ a ∈ resolved, IsResolved a := by
  induction given generalizing resolved with
  | nil =>
    cases h
    simp
  | cons a given ih =>
    obtain ⟨name, value⟩ := a
    rw [List.forall_mem_cons] at hgiven
    rw [resolveAll?] at h
    split at h
    · exact ih hgiven.2 h
    · obtain ⟨name', hname, h⟩ := Option.bind_eq_some_iff.mp h
      obtain ⟨rest, hrest, h⟩ := Option.bind_eq_some_iff.mp h
      cases h
      obtain ⟨uri, huri, hclark⟩ := of_resolve? hscope hgiven.1.1 hname
      refine List.forall_mem_cons.mpr ⟨⟨⟨uri, _, hclark, huri, ?_⟩, hgiven.1.2⟩, ih hgiven.2 hrest⟩
      exact (isWord_splitName hgiven.1.1).2

theorem declaredPrefix?_isWord {name pre : String} (h : isWord name.toList = true)
    (hpre : declaredPrefix? name = some pre) : isWord pre.toList = true := by
  unfold declaredPrefix? at hpre
  split at hpre
  · cases hpre
    rfl
  · split at hpre
    · next heq =>
      cases hpre
      have := (isWord_splitName h).2
      rwa [heq] at this
    · cases hpre

/-! ### Elements -/

/-- The names and texts in an element could stand in a document. -/
inductive Element.IsSound : Element → Prop
  | mk {tag : String} {attributes : Fields String} {text : String} {children : List Element}
      {tail : String} (tag_ok : isName (bareName tag).toList = true)
      (attributes_ok : ∀ a ∈ attributes, IsResolved a) (text_ok : isLegible text = true)
      (children_ok : ∀ e ∈ children, Element.IsSound e) :
      Element.IsSound (.mk tag attributes text children tail)

theorem Element.IsSound.isName {e : Element} (h : e.IsSound) :
    Xml.isName (bareName e.tag).toList = true := by
  cases h with
  | mk tag_ok => exact tag_ok

/-- The names and texts in an open element could stand in a document. -/
structure OpenElement.IsSound (o : OpenElement) : Prop where
  tag : isName (bareName o.tag).toList = true
  attributes : ∀ a ∈ o.attributes, IsResolved a
  text : IsText o.text
  children : ∀ e ∈ o.children, e.IsSound
  scope : IsSoundScope o.scope

namespace Reading

/-- All that was read so far could stand in a document. -/
structure IsSound (r : Reading) : Prop where
  stack : ∀ o ∈ r.stack, o.IsSound
  declared : ∀ a ∈ r.declared, IsGiven a
  root : ∀ e ∈ r.root, e.IsSound

variable {r r' : Reading}

theorem IsSound.scope (hr : r.IsSound) : IsSoundScope r.scope := by
  unfold Reading.scope
  split
  · next top below heq => exact (hr.stack top (heq ▸ List.mem_cons_self)).scope
  · exact isSoundScope_xml

theorem IsSound.open? (hr : r.IsSound) {d : Doctype} (hd : d.IsSound) {name : String}
    (hname : IsQualifiedName name.toList) {raw : List (String × List Char)}
    (hraw : ∀ a ∈ raw, isWord a.1.toList = true ∧ IsText a.2)
    (h : r.open? d name raw = some r') : r'.IsSound := by
  unfold Reading.open? at h
  simp only [Option.bind_eq_bind, Option.pure_def] at h
  split at h
  · cases h
  obtain ⟨given, hgiven, h⟩ := Option.bind_eq_some_iff.mp h
  obtain ⟨scope, hscope, h⟩ := Option.bind_eq_some_iff.mp h
  obtain ⟨tag, htag, h⟩ := Option.bind_eq_some_iff.mp h
  obtain ⟨attributes, hattributes, h⟩ := Option.bind_eq_some_iff.mp h
  split at h
  · cases h
  -- what a tag gives and what is declared for it are attributes alike
  have hall : ∀ a ∈ given ++ (d.presets name (raw.map Prod.fst)).map
      (fun a => (a.1, String.ofList a.2)), IsGiven a := by
    refine List.forall_mem_append.mpr ⟨isGiven_of_settleValues? hd hraw hgiven, fun a ha => ?_⟩
    obtain ⟨a', ha', rfl⟩ := List.mem_map.mp ha
    obtain ⟨hword, htext⟩ := hd.presets ha'
    exact ⟨hword, isLegible_ofList.mpr htext⟩
  have hsound : IsSoundScope scope := hr.scope.bindAll? hscope
  cases h
  refine ⟨List.forall_mem_cons.mpr ⟨⟨?_, ?_, isText_nil, by simp, hsound⟩, hr.stack⟩, ?_, hr.root⟩
  · exact isName_bareName_resolve? hsound hname htag
  · exact isResolved_of_resolveAll? hsound hall hattributes
  · refine List.forall_mem_append.mpr ⟨fun a ha => ?_, hr.declared⟩
    obtain ⟨a', ha', h⟩ := List.mem_filterMap.mp (List.mem_reverse.mp ha)
    obtain ⟨pre, hpre, rfl⟩ := Option.map_eq_some_iff.mp h
    exact ⟨declaredPrefix?_isWord (hall a' ha').1 hpre, (hall a' ha').2⟩

theorem IsSound.addChar (hr : r.IsSound) {c : Char} (hc : isChar c = true) :
    (r.addChar c).IsSound := by
  unfold Reading.addChar
  split
  · next top below heq =>
    have hstack := hr.stack
    rw [heq, List.forall_mem_cons] at hstack
    split
    · refine ⟨List.forall_mem_cons.mpr ⟨?_, hstack.2⟩, hr.declared, hr.root⟩
      exact { hstack.1 with text := isText_cons.mpr ⟨hc, hstack.1.text⟩ }
    · exact hr
  · exact hr

theorem IsSound.attach (hr : r.IsSound) {e : Element} (he : e.IsSound) :
    (r.attach e).IsSound := by
  unfold Reading.attach
  split
  · next top below heq =>
    have hstack := hr.stack
    rw [heq, List.forall_mem_cons] at hstack
    refine ⟨List.forall_mem_cons.mpr ⟨?_, hstack.2⟩, hr.declared, hr.root⟩
    exact { hstack.1 with children := List.forall_mem_cons.mpr ⟨he, hstack.1.children⟩ }
  · exact ⟨hr.stack, hr.declared, by rintro _ ⟨⟩; exact he⟩

theorem IsSound.close? (hr : r.IsSound) {name : String} (h : r.close? name = some r') :
    r'.IsSound := by
  unfold Reading.close? at h
  split at h
  · next top below heq =>
    split at h
    · cases h
      have hstack := hr.stack
      rw [heq, List.forall_mem_cons] at hstack
      have hbelow : IsSound { r with stack := below } := ⟨hstack.2, hr.declared, hr.root⟩
      refine hbelow.attach ?_
      refine .mk hstack.1.tag hstack.1.attributes ?_ fun e he =>
        hstack.1.children e (List.mem_reverse.mp he)
      exact isLegible_ofList.mpr hstack.1.text.reverse
    · cases h
  · cases h

end Reading

/-! ### Content -/

section Content

variable {d : Doctype} {r r' : Reading} {cs rest : List Char}

theorem isSound_of_readSection? (hr : r.IsSound) (h : readSection? r cs = some (r', rest)) :
    r'.IsSound := by
  induction r, cs using readSection?.induct with
  | case1 r rest =>
    cases h
    exact hr
  | case2 r c cs hc hchar ih =>
    rw [readSection?, if_pos hchar] at h
    · exact ih (hr.addChar hchar) h
    · exact hc
  | case3 r c cs hc hchar =>
    rw [readSection?, if_neg hchar] at h
    · cases h
    · exact hc
  | case4 => cases h

theorem isSound_of_readStart? (hd : d.IsSound) (hr : r.IsSound)
    (h : readStart? d r cs = some (r', rest)) : r'.IsSound := by
  obtain ⟨⟨name, behind⟩, hname, h⟩ := Option.bind_eq_some_iff.mp h
  obtain ⟨⟨raw, closed, behind'⟩, hraw, h⟩ := Option.bind_eq_some_iff.mp h
  obtain ⟨opened, hopened, h⟩ := Option.bind_eq_some_iff.mp h
  obtain ⟨-, hname⟩ := of_readQualifiedName? hname
  have hname' : IsQualifiedName (String.ofList name).toList := by rwa [String.toList_ofList]
  have hopen : opened.IsSound :=
    hr.open? hd hname' (of_readAttributes? (by simp) hraw) hopened
  cases closed with
  | false =>
    cases h
    exact hopen
  | true =>
    obtain ⟨done, hdone, h⟩ := Option.bind_eq_some_iff.mp h
    cases h
    exact hopen.close? hdone

theorem isSound_of_readClose? (hr : r.IsSound) (h : readClose? r cs = some (r', rest)) :
    r'.IsSound := by
  obtain ⟨⟨name, behind⟩, -, h⟩ := Option.bind_eq_some_iff.mp h
  dsimp only at h
  split at h
  · obtain ⟨closed, hclosed, h⟩ := Option.map_eq_some_iff.mp h
    cases h
    exact hr.close? hclosed
  · cases h

theorem isChar_of_readReference? {c : Char} (h : readReference? cs = some (.character c, rest)) :
    isChar c = true := by
  unfold readReference? at h
  split at h
  · obtain ⟨reference, hreference, h⟩ := Option.map_eq_some_iff.mp h
    cases h
    exact isChar_of_ofBody? hreference
  · cases h

/-- Reading content keeps the invariant, if what entities stand for does. -/
theorem isSound_of_readContent (hd : d.IsSound) {expand : String → Reading → Option Reading}
    (hexpand : ∀ name (r r' : Reading), r.IsSound → expand name r = some r' → r'.IsSound)
    {floor fuel : Nat} (hr : r.IsSound)
    (h : readContent d expand floor fuel r cs = some (r', rest)) : r'.IsSound := by
  induction fuel generalizing r cs with
  | zero =>
    cases h
    exact hr
  | succ fuel ih =>
    unfold readContent at h
    split at h
    · cases h
      exact hr
    split at h
    · cases h
      exact hr
    · -- an end tag
      split at h
      · cases h
      · split at h
        · next hclose => exact ih (isSound_of_readClose? hr hclose) h
        · cases h
    · split at h
      · exact ih hr h
      · cases h
    · split at h
      · next hsection => exact ih (isSound_of_readSection? hr hsection) h
      · cases h
    · split at h
      · exact ih hr h
      · cases h
    · -- a start tag
      split at h
      · next hstart => exact ih (isSound_of_readStart? hd hr hstart) h
      · cases h
    · split at h
      · next hreference => exact ih (hr.addChar (isChar_of_readReference? hreference)) h
      · split at h
        · next hexpanded => exact ih (hexpand _ _ _ hr hexpanded) h
        · cases h
      · cases h
    · cases h
    · split at h
      · next hc => exact ih (hr.addChar hc) h
      · cases h

/-- The text that an entity stands for keeps the invariant, however deep references go. -/
theorem isSound_of_expandContent (hd : d.IsSound) (depth : Nat) :
    ∀ name (r r' : Reading), r.IsSound → expandContent d depth name r = some r' → r'.IsSound := by
  induction depth with
  | zero =>
    intro name r r' _ h
    cases h
  | succ depth ih =>
    intro name r r' hr h
    rw [expandContent] at h
    split at h
    · split at h
      · next hread =>
        split at h <;> cases h
        exact isSound_of_readContent hd ih hr hread
      · cases h
    · cases h
      exact ⟨hr.stack, hr.declared, hr.root⟩
    · cases h
    · split at h <;> cases h
      exact ⟨hr.stack, hr.declared, hr.root⟩

end Content

namespace Document

theorem isSound_of_readRoot? {d : Doctype} (hd : d.IsSound) {cs : List Char} {r : Reading}
    (h : readRoot? d cs = some r) : r.IsSound := by
  obtain ⟨cs', -, h⟩ := Option.bind_eq_some_iff.mp h
  dsimp only at h
  split at h
  · obtain ⟨⟨opened, behind⟩, hopened, h⟩ := Option.bind_eq_some_iff.mp h
    obtain ⟨⟨closed, behind'⟩, hclosed, h⟩ := Option.bind_eq_some_iff.mp h
    obtain ⟨rest, -, h⟩ := Option.bind_eq_some_iff.mp h
    dsimp only at h
    split at h <;> cases h
    have hnothing : ({} : Reading).IsSound := ⟨by simp, by simp, by simp⟩
    exact isSound_of_readContent hd (isSound_of_expandContent hd _)
      (isSound_of_readStart? hd hnothing hopened) hclosed
  · cases h

theorem isSound_of_reading? {s : String} {r : Reading} (h : reading? s = some r) : r.IsSound := by
  obtain ⟨⟨standalone, cs⟩, -, h⟩ := Option.bind_eq_some_iff.mp h
  obtain ⟨cs', -, h⟩ := Option.bind_eq_some_iff.mp h
  obtain ⟨⟨d, cs''⟩, hd, h⟩ := Option.bind_eq_some_iff.mp h
  exact isSound_of_readRoot? (isSound_of_readType? hd) h

/-- **The names and texts of a document that was read can be written.** -/
theorem isSound_of_read {s : String} {document : Document} (h : read s = .ok document) :
    document.root.IsSound ∧ ∀ a ∈ document.declared, IsGiven a := by
  unfold read at h
  split at h
  · next stack declared root outside hreading =>
    split at h
    · cases h
    · cases h
      have hsound := isSound_of_reading? hreading
      exact ⟨hsound.root root rfl, fun a ha => hsound.declared a (List.mem_reverse.mp ha)⟩
  · cases h

end Document

end Xml
end TrustFramework
