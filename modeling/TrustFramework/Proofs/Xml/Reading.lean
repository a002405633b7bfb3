import TrustFramework.Proofs.Xml.Characters
import TrustFramework.Policy.Tree

/-!
# Reading what was written

An element that is written, and read from there, comes back with its names resolved: what its
attributes declare is in scope, and goes from the attributes to the declarations of the document.
Elements that were written carry plain names, so nothing is added to them for the namespaces in
them.

## Main definitions

* `resolveTag?`, `Element.resolved?` — a tag and an element with their names resolved.
* `Element.declared` — the namespaces an element declares, in the order of the document.
* `Element.IsWritable` — the names in an element are such that they can be read, and its texts
  such that a document may hold them.
* `Reading.within` — reading inside an element.

## Main results

* `readContent_written`, `readsBack` — **reading goes over an element that was
  written and has it with its names resolved.**
* `Document.read_written` — **a document that was written is read as its root with the names
  resolved.**
-/

namespace TrustFramework
namespace Xml

/-! ### Elements with their names resolved -/

/-- A tag with its names resolved. -/
structure ResolvedTag where
  tag : String
  attributes : Fields String
  /-- The namespaces in scope inside the element. -/
  scope : Fields String

/-- The namespaces that some attributes declare. -/
def declaredBy (attributes : List (String × String)) : List (String × String) :=
  attributes.filterMap fun (name, value) => (declaredPrefix? name).map fun pre => (pre, value)

/-- A tag with its names resolved against the namespaces in scope, and those it declares. -/
def resolveTag? (scope : Fields String) (name : String) (attributes : Fields String) :
    Option ResolvedTag := do
  if !allDistinct (attributes.map Prod.fst) then none
  let inner ← bindAll? scope attributes
  let tag ← resolve? inner true name
  let resolved ← resolveAll? inner attributes
  if !allDistinct (resolved.map Prod.fst) then none
  pure ⟨tag, resolved, inner⟩

namespace Element

mutual
/-- An element as it is read, if it can be: the names of its attributes are names, and all names
can be resolved. -/
def resolved? (scope : Fields String) : Element → Option Element
  | mk name attributes text children _ => do
    if !attributes.all fun a => isQualified a.1 then none
    let t ← resolveTag? scope name attributes
    let children ← resolvedAll? t.scope children
    pure (mk t.tag t.attributes text children "")

/-- Elements as they are read. -/
def resolvedAll? (scope : Fields String) : List Element → Option (List Element)
  | [] => some []
  | e :: rest => do
    let e ← resolved? scope e
    let rest ← resolvedAll? scope rest
    pure (e :: rest)
end

mutual
/-- The namespaces that an element and those in it declare. -/
def declared : Element → List (String × String)
  | mk _ attributes _ children _ => declaredBy attributes ++ declaredAll children

/-- The namespaces that some elements declare. -/
def declaredAll : List Element → List (String × String)
  | [] => []
  | e :: rest => declared e ++ declaredAll rest
end

mutual
/-- The names in an element can be read, and its texts stand in documents. -/
def IsWritable : Element → Prop
  | mk tag attributes text children tail =>
    IsQualifiedName tag.toList ∧
      (∀ a ∈ attributes, isWord a.1.toList = true ∧ isLegible a.2 = true) ∧
      isLegible text = true ∧ (isLegible tail = true ∧ '\r' ∉ tail.toList) ∧ AreWritable children

/-- Elements that can be written and read. -/
def AreWritable : List Element → Prop
  | [] => True
  | e :: rest => IsWritable e ∧ AreWritable rest
end

mutual
/-- How many steps reading an element takes: one for each tag and each character of text. -/
def steps : Element → Nat
  | mk _ _ text children tail =>
    (if text.isEmpty && children.isEmpty then 1
      else text.toList.length + stepsOfAll children + 2) + tail.toList.length

/-- How many steps reading some elements takes. -/
def stepsOfAll : List Element → Nat
  | [] => 0
  | e :: rest => steps e + stepsOfAll rest
end

mutual
/-- An element with all line ends of its texts made line feeds. -/
def settled : Element → Element
  | mk tag attributes text children tail =>
    mk tag attributes (Text.withLineFeeds text) (settledAll children) tail

/-- Elements with line feeds for line ends. -/
def settledAll : List Element → List Element
  | [] => []
  | e :: rest => settled e :: settledAll rest
end

/-! ### What is written of an element -/

section Written

variable {tag : String} {attributes : Fields String} {text tail : String}
  {children : List Element}

theorem exists_writeOnto_eq (bound extra : Fields String) (e : Element) (rest : List Char) :
    ∃ more, writeOnto bound extra e rest = '<' :: more := by
  match e with
  | mk tag attributes text [] tail =>
    rw [writeOnto]
    split <;> exact ⟨_, rfl⟩
  | mk tag attributes text (child :: children) tail => exact ⟨_, by rw [writeOnto]⟩

theorem exists_writeAllOnto_eq (bound : Fields String) (es : List Element) (rest : List Char) :
    ∃ more, writeAllOnto bound es ('<' :: rest) = '<' :: more := by
  cases es with
  | nil => exact ⟨rest, by rw [writeAllOnto]⟩
  | cons e es =>
    rw [writeAllOnto]
    exact exists_writeOnto_eq _ _ _ _

/-- An element without text and children is a single tag. -/
theorem writeOnto_closed (htag : IsQualifiedName tag.toList) (h : text.isEmpty = true)
    (rest : List Char) : writeOnto [] [] (mk tag attributes text [] tail) rest =
      '<' :: (tag.toList ++ (writtenAttributes [] attributes ++
        (tagEnd true ++ (escapeText tail ++ rest)))) := by
  rw [writeOnto, prefixed_of_isWord (isWord_of_isQualifiedName htag)]
  simp [h, tagEnd]

/-- Any other element stands between two tags. -/
theorem writeOnto_open (htag : IsQualifiedName tag.toList)
    (h : (text.isEmpty && children.isEmpty) = false) (rest : List Char) :
    writeOnto [] [] (mk tag attributes text children tail) rest =
      '<' :: (tag.toList ++ (writtenAttributes [] attributes ++ (tagEnd false ++
        (escapeText text ++ writeAllOnto [] children
          ('<' :: '/' :: (tag.toList ++ '>' :: (escapeText tail ++ rest))))))) := by
  have hprefixed := prefixed_of_isWord (isWord_of_isQualifiedName htag) []
  cases children with
  | nil =>
    rw [writeOnto, hprefixed]
    have htext : text.isEmpty = false := by simpa using h
    simp [htext, tagEnd, writeAllOnto]
  | cons child children =>
    rw [writeOnto, hprefixed]
    simp [tagEnd]

/-- What is written of an element begins with a name. -/
theorem exists_writeOnto_eq_of_isWritable {e : Element} (h : e.IsWritable) (rest : List Char) :
    ∃ c more, isNameStart c = true ∧ writeOnto [] [] e rest = '<' :: c :: more := by
  match e, h with
  | mk tag attributes text children tail, h =>
    rw [IsWritable] at h
    obtain ⟨c, more, hc, hstart⟩ := h.1.exists_cons
    cases hclosed : text.isEmpty && children.isEmpty with
    | true =>
      rw [Bool.and_eq_true, List.isEmpty_iff] at hclosed
      obtain ⟨hempty, rfl⟩ := hclosed
      exact ⟨c, _, hstart, by rw [writeOnto_closed h.1 hempty, hc]; rfl⟩
    | false => exact ⟨c, _, hstart, by rw [writeOnto_open h.1 hclosed, hc]; rfl⟩

end Written

end Element

/-! ### Start tags -/

/-- No attribute has a rule of its own. -/
theorem attributeValue?_escapeValue {d : Doctype} (hd : d.attributes = []) (element name : String)
    (value : String) : d.attributeValue? element name (Element.escapeValue value) =
      some value.toList := by
  have hrule : d.rule? element name = none := by simp [Doctype.rule?, hd]
  rw [Doctype.attributeValue?, Doctype.expandValue?, Element.escapeValue, expandFrom_escapeValue,
    hrule]
  rfl

theorem settleValues?_escapeValue {d : Doctype} (hd : d.attributes = []) (element : String)
    (attributes : Fields String) :
    settleValues? d element (attributes.map fun a => (a.1, Element.escapeValue a.2)) =
      some attributes := by
  induction attributes with
  | nil => rfl
  | cons a attributes ih =>
    rw [List.map_cons, settleValues?, attributeValue?_escapeValue hd, ih]
    simp

namespace Reading

/-- What was read, with more namespaces declared. -/
def declaring (r : Reading) (declared : List (String × String)) : Reading :=
  { r with declared := declared.reverse ++ r.declared }

/-- Reading inside an element, behind some text and some children. -/
def within (r : Reading) (name : String) (t : ResolvedTag) (text : List Char)
    (children : List Element) : Reading :=
  { r with stack := ⟨name, t.tag, t.attributes, text.reverse, children.reverse, t.scope⟩ :: r.stack }

variable {r : Reading} {name : String} {t : ResolvedTag} {text : List Char}
  {children : List Element}

/-- A start tag that was written opens an element with its names resolved. -/
theorem open?_escapeValue (r : Reading) {d : Doctype} (hd : d.attributes = []) (name : String)
    (attributes : Fields String) :
    r.open? d name (attributes.map fun a => (a.1, Element.escapeValue a.2)) =
      (resolveTag? r.scope name attributes).map fun t =>
        (r.declaring (declaredBy attributes)).within name t [] [] := by
  have hnames : (attributes.map fun a => (a.1, Element.escapeValue a.2)).map Prod.fst =
      attributes.map Prod.fst := by simp
  have hpresets : d.presets name (attributes.map Prod.fst) = [] := by simp [Doctype.presets, hd]
  unfold open? resolveTag?
  rw [hnames, settleValues?_escapeValue hd, hpresets]
  simp only [Option.bind_eq_bind, Option.bind_some, List.map_nil, List.append_nil]
  cases allDistinct (attributes.map Prod.fst) with
  | false => rfl
  | true =>
    cases hbind : bindAll? r.scope attributes with
    | none => simp
    | some inner =>
      cases htag : resolve? inner true name with
      | none => simp [htag]
      | some tag =>
        cases hresolved : resolveAll? inner attributes with
        | none => simp [htag, hresolved]
        | some resolved =>
          cases hdistinct : allDistinct (resolved.map Prod.fst) <;>
            simp [htag, hresolved, hdistinct, within, declaring, declaredBy]

theorem close?_within (r : Reading) (name : String) (t : ResolvedTag) (text : List Char)
    (children : List Element) : (r.within name t text children).close? name =
      some (r.attach (.mk t.tag t.attributes (String.ofList text) children "")) := by
  simp [close?, within]

theorem foldl_addChar_within (r : Reading) (name : String) (t : ResolvedTag)
    (text cs : List Char) : cs.foldl addChar (r.within name t text []) =
      r.within name t (text ++ cs) [] := by
  induction cs generalizing text with
  | nil => simp
  | cons c cs ih =>
    have hstep : (r.within name t text []).addChar c = r.within name t (text ++ [c]) [] := by
      simp [addChar, within]
    rw [List.foldl_cons, hstep, ih, List.append_assoc, List.singleton_append]

/-- Behind a child, text belongs to nothing. -/
theorem foldl_addChar_within_of_ne_nil (r : Reading) (name : String) (t : ResolvedTag)
    (text cs : List Char) (h : children ≠ []) :
    cs.foldl addChar (r.within name t text children) = r.within name t text children := by
  induction cs with
  | nil => rfl
  | cons c cs ih =>
    have hstep : (r.within name t text children).addChar c = r.within name t text children := by
      simp [addChar, within, h]
    rw [List.foldl_cons, hstep, ih]

theorem attach_within (r : Reading) (name : String) (t : ResolvedTag) (text : List Char)
    (children : List Element) (e : Element) : (r.within name t text children).attach e =
      r.within name t text (children ++ [e]) := by
  simp [attach, within]

theorem declaring_within (r : Reading) (name : String) (t : ResolvedTag) (text : List Char)
    (children : List Element) (declared : List (String × String)) :
    (r.within name t text children).declaring declared =
      (r.declaring declared).within name t text children := rfl

theorem declaring_declaring (r : Reading) (declared more : List (String × String)) :
    (r.declaring declared).declaring more = r.declaring (declared ++ more) := by
  simp [declaring]

theorem declaring_nil (r : Reading) : r.declaring [] = r := rfl

@[simp] theorem scope_within (r : Reading) (name : String) (t : ResolvedTag) (text : List Char)
    (children : List Element) : (r.within name t text children).scope = t.scope := rfl

theorem stack_within_ne_nil (r : Reading) (name : String) (t : ResolvedTag) (text : List Char)
    (children : List Element) : (r.within name t text children).stack ≠ [] :=
  List.cons_ne_nil _ _

theorem level_within (r : Reading) (name : String) (t : ResolvedTag) (text : List Char)
    (children : List Element) : (r.within name t text children).level = r.level + 1 := rfl

end Reading

theorem length_le_length_writtenAttributes (bound attributes : Fields String) :
    attributes.length ≤ (Element.writtenAttributes bound attributes).length := by
  induction attributes with
  | nil => exact Nat.le_refl _
  | cons a attributes ih =>
    rw [Element.writtenAttributes, List.flatMap_cons, List.length_append, ← Element.writtenAttributes]
    simp only [List.length_cons]
    omega

/-- A start tag that was written is read up to its end. -/
theorem readStart?_written (r : Reading) {d : Doctype} (hd : d.attributes = []) {name : String}
    (hname : IsQualifiedName name.toList) {attributes : Fields String}
    (h : ∀ a ∈ attributes, isWord a.1.toList = true ∧ isLegible a.2 = true) (closed : Bool)
    (rest : List Char) :
    readStart? d r (name.toList ++ (Element.writtenAttributes [] attributes ++
        (tagEnd closed ++ rest))) =
      if attributes.all fun a => isQualified a.1 then
        (resolveTag? r.scope name attributes).map fun t =>
          (if closed then (r.declaring (declaredBy attributes)).attach
              (.mk t.tag t.attributes "" [] "")
            else (r.declaring (declaredBy attributes)).within name t [] [], rest)
      else none := by
  have hend : ∀ c ∈ (Element.writtenAttributes [] attributes ++
      (tagEnd closed ++ rest)).head?, isNameChar c = false ∧ c ≠ ':' := by
    cases attributes with
    | nil =>
      cases closed <;>
      · rintro c ⟨⟩
        decide
    | cons a attributes =>
      rintro c ⟨⟩
      decide
  have hfuel : attributes.length < (Element.writtenAttributes [] attributes ++
      (tagEnd closed ++ rest)).length + 1 := by
    have := length_le_length_writtenAttributes [] attributes
    rw [List.length_append]
    omega
  rw [readStart?, readQualifiedName?_append hname hend]
  simp only [Option.bind_eq_bind, Option.bind_some, readAttributes?_written h closed rest hfuel,
    String.ofList_toList, List.reverse_nil, List.nil_append]
  cases attributes.all fun a => isQualified a.1 with
  | false => rfl
  | true =>
    simp only [if_true, Option.bind_some, Reading.open?_escapeValue r hd]
    cases resolveTag? r.scope name attributes with
    | none => rfl
    | some t => cases closed <;> simp [Reading.close?_within]

/-! ### Content -/

section Content

variable {d : Doctype} {expand : String → Reading → Option Reading} {floor : Nat}

theorem readContent_character {r : Reading} (hr : r.stack ≠ []) {c : Char} {rest : List Char}
    (hc : isChar c = true) (hopen : c ≠ '<') (hamp : c ≠ '&')
    (hmark : ∀ more, c :: rest ≠ ']' :: ']' :: '>' :: more) (fuel : Nat) :
    readContent d expand floor (fuel + 1) r (c :: rest) =
      readContent d expand floor fuel (r.addChar c) rest := by
  have hstack : r.stack.isEmpty = false := by simpa using hr
  rw [readContent]
  · rw [hstack, if_neg Bool.false_ne_true, if_pos hc]
  · exact fun _ h _ => hopen h
  · exact fun _ h _ => hopen h
  · exact fun _ h _ => hopen h
  · exact fun _ h _ => hopen h
  · exact hopen
  · exact hamp
  · exact fun more h hrest => hmark more (by rw [h, hrest])

theorem readContent_reference {r : Reading} (hr : r.stack ≠ []) {body : List Char}
    (hbody : ';' ∉ body) {c : Char} (hc : Reference.ofBody? body = some (.character c))
    (rest : List Char) (fuel : Nat) :
    readContent d expand floor (fuel + 1) r ('&' :: (body ++ ';' :: rest)) =
      readContent d expand floor fuel (r.addChar c) rest := by
  have hstack : r.stack.isEmpty = false := by simpa using hr
  rw [readContent, hstack, if_neg Bool.false_ne_true, readReference?_append hbody, hc]
  rfl

theorem mem_flatMap_textChar (cs : List Char) : '>' ∉ cs.flatMap Element.textChar := by
  intro h
  obtain ⟨c, -, hc⟩ := List.mem_flatMap.mp h
  unfold Element.textChar at hc
  split_ifs at hc with hamp hopen hclose
  · exact absurd hc (by decide)
  · exact absurd hc (by decide)
  · exact absurd hc (by decide)
  · exact hclose (List.mem_singleton.mp hc).symm

/-- **Text that was written is read character by character.** -/
theorem readContent_escapeText {r : Reading} (hr : r.stack ≠ []) {cs : List Char}
    (h : ∀ c ∈ cs, isChar c = true) (rest : List Char) (fuel : Nat) :
    readContent d expand floor (fuel + cs.length) r
        (cs.flatMap Element.textChar ++ '<' :: rest) =
      readContent d expand floor fuel (cs.foldl Reading.addChar r) ('<' :: rest) := by
  induction cs generalizing r with
  | nil => rfl
  | cons c cs ih =>
    rw [List.forall_mem_cons] at h
    have hstack : (r.addChar c).stack ≠ [] := by
      unfold Reading.addChar
      split
      · split <;> simp [hr]
      · exact hr
    have hstep : readContent d expand floor (fuel + cs.length + 1) r
        (Element.textChar c ++ (cs.flatMap Element.textChar ++ '<' :: rest)) =
          readContent d expand floor (fuel + cs.length) (r.addChar c)
            (cs.flatMap Element.textChar ++ '<' :: rest) := by
      unfold Element.textChar
      split_ifs with hamp hopen hclose
      · subst hamp
        exact readContent_reference hr (by decide : ';' ∉ ['a', 'm', 'p']) (by decide) _ _
      · subst hopen
        exact readContent_reference hr (by decide : ';' ∉ ['l', 't']) (by decide) _ _
      · subst hclose
        exact readContent_reference hr (by decide : ';' ∉ ['g', 't']) (by decide) _ _
      · rw [List.singleton_append]
        refine readContent_character hr h.1 hopen hamp (fun more hmark => ?_) _
        have hclose := mem_flatMap_textChar cs
        -- two brackets and a closing mark would have to stand before the opening mark
        match hcs : cs.flatMap Element.textChar, hmark with
        | [], hmark => simp at hmark
        | [x], hmark => simp at hmark
        | x :: y :: _, hmark =>
          rw [hcs] at hclose
          simp only [List.cons_append, List.cons.injEq] at hmark
          exact hclose (hmark.2.2.1 ▸ by simp)
    rw [List.flatMap_cons, List.append_assoc, List.length_cons, ← Nat.add_assoc, hstep,
      ih hstack h.2, List.foldl_cons]

/-- A start tag begins with a character of its name. -/
theorem readContent_start {r : Reading} (hr : r.stack ≠ []) {c : Char} {rest : List Char}
    (hc : isNameStart c = true) (fuel : Nat) :
    readContent d expand floor (fuel + 1) r ('<' :: c :: rest) =
      (readStart? d r (c :: rest)).bind fun found =>
        readContent d expand floor fuel found.1 found.2 := by
  have hstack : r.stack.isEmpty = false := by simpa using hr
  have hne : ∀ x : Char, isNameStart x = false → c ≠ x := by
    rintro x hx rfl
    rw [hc] at hx
    cases hx
  rw [readContent]
  · rw [hstack, if_neg Bool.false_ne_true]
    cases readStart? d r (c :: rest) <;> rfl
  · exact fun more h => hne '/' (by decide) (List.cons.inj h).1
  · exact fun more h => hne '!' (by decide) (List.cons.inj h).1
  · exact fun more h => hne '!' (by decide) (List.cons.inj h).1
  · exact fun more h => hne '?' (by decide) (List.cons.inj h).1

/-- An end tag that was written closes its element. -/
theorem readContent_close {r : Reading} (hfloor : floor ≤ r.level) {name : String}
    (hname : IsQualifiedName name.toList) (t : ResolvedTag) (text : List Char)
    (children : List Element) (rest : List Char) (fuel : Nat) :
    readContent d expand floor (fuel + 1) (r.within name t text children)
        ('<' :: '/' :: (name.toList ++ '>' :: rest)) =
      readContent d expand floor fuel
        (r.attach (.mk t.tag t.attributes (String.ofList text) children "")) rest := by
  have hlevel : ¬ (r.within name t text children).level ≤ floor := by
    rw [Reading.level_within]
    omega
  have hclose : readClose? (r.within name t text children) (name.toList ++ '>' :: rest) =
      some (r.attach (.mk t.tag t.attributes (String.ofList text) children ""), rest) := by
    rw [readClose?, readQualifiedName?_append hname (by rintro c ⟨⟩; decide)]
    simp [skipSpace, isSpace, Reading.close?_within]
  rw [readContent, if_neg (by simp [Reading.within]), if_neg hlevel, hclose]

/-- Behind the end of the root there is no content. -/
theorem readContent_done {r : Reading} (hr : r.stack = []) (cs : List Char) (fuel : Nat) :
    readContent d expand floor fuel r cs = some (r, cs) := by
  cases fuel with
  | zero => rw [readContent]
  | succ fuel =>
    unfold readContent
    rw [hr]
    rfl

/-- Text behind a child is read and goes nowhere. -/
theorem readContent_tail (r : Reading) (name : String) (t : ResolvedTag) (text : List Char)
    {children : List Element} (hchildren : children ≠ []) {tail : String}
    (htail : isLegible tail = true) (rest : List Char) (fuel : Nat) :
    readContent d expand floor (fuel + tail.toList.length) (r.within name t text children)
        (Element.escapeText tail ++ '<' :: rest) =
      readContent d expand floor fuel (r.within name t text children) ('<' :: rest) := by
  rw [Element.escapeText, readContent_escapeText (r.stack_within_ne_nil name t text children)
    (List.all_eq_true.mp htail), Reading.foldl_addChar_within_of_ne_nil _ _ _ _ _ hchildren]

variable (d expand floor) in
/-- Reading goes over some elements that were written, inside whatever element, and has them with
their names resolved. -/
def ReadsBack (es : List Element) : Prop :=
  ∀ (r : Reading) (name : String) (t : ResolvedTag) (text : List Char) (children : List Element)
    (rest : List Char) (fuel : Nat), floor ≤ r.level →
    readContent d expand floor (fuel + Element.stepsOfAll es) (r.within name t text children)
        (Element.writeAllOnto [] es ('<' :: rest)) =
      (Element.resolvedAll? t.scope es).bind fun es' =>
        readContent d expand floor fuel
          ((r.declaring (Element.declaredAll es)).within name t text (children ++ es')) ('<' :: rest)

/-- **From behind its start tag an element is read up to its end.** -/
theorem readContent_body {children : List Element} (hchildren : ReadsBack d expand floor children)
    {r : Reading} (hfloor : floor ≤ r.level) {name : String} (hname : IsQualifiedName name.toList)
    {text : String} (htext : isLegible text = true) (t : ResolvedTag) (rest : List Char)
    (fuel : Nat) :
    readContent d expand floor (fuel + (text.toList.length + Element.stepsOfAll children + 1))
        (r.within name t [] []) (Element.escapeText text ++ Element.writeAllOnto [] children
          ('<' :: '/' :: (name.toList ++ '>' :: rest))) =
      (Element.resolvedAll? t.scope children).bind fun children' =>
        readContent d expand floor fuel ((r.declaring (Element.declaredAll children)).attach
          (.mk t.tag t.attributes text children' "")) rest := by
  have hopen : ∃ more, Element.writeAllOnto [] children
      ('<' :: '/' :: (name.toList ++ '>' :: rest)) = '<' :: more :=
    Element.exists_writeAllOnto_eq _ _ _
  obtain ⟨more, hmore⟩ := hopen
  have hfuel : fuel + (text.toList.length + Element.stepsOfAll children + 1) =
      (fuel + 1 + Element.stepsOfAll children) + text.toList.length := by omega
  rw [hfuel, hmore, Element.escapeText, readContent_escapeText
    (r.stack_within_ne_nil _ _ _ _) (List.all_eq_true.mp htext), Reading.foldl_addChar_within, List.nil_append, ← hmore,
    hchildren r name t _ _ _ _ hfloor]
  cases Element.resolvedAll? t.scope children with
  | none => rfl
  | some children' =>
    rw [Option.bind_some, Option.bind_some, List.nil_append,
      readContent_close (show floor ≤ (r.declaring _).level from hfloor) hname,
      String.ofList_toList]

mutual
/-- **Reading goes over an element that was written and has it with its names resolved.** -/
theorem readContent_written (hd : d.attributes = []) : ∀ e : Element, e.IsWritable →
    ∀ (r : Reading) (name : String) (t : ResolvedTag) (text : List Char)
      (children : List Element) (rest : List Char) (fuel : Nat), floor ≤ r.level →
      readContent d expand floor (fuel + e.steps) (r.within name t text children)
          (Element.writeOnto [] [] e ('<' :: rest)) =
        (e.resolved? t.scope).bind fun e' => readContent d expand floor fuel
          ((r.declaring e.declared).within name t text (children ++ [e'])) ('<' :: rest)
  | .mk tag attributes content inner tail, h => by
    intro r name t text children rest fuel hfloor
    rw [Element.IsWritable] at h
    obtain ⟨htag, hattributes, hcontent, ⟨htail, -⟩, hinner⟩ := h
    obtain ⟨c, more, hc, hstart⟩ := htag.exists_cons
    have hback := readsBack hd inner hinner
    have hread := fun closed more => readStart?_written (r.within name t text children) hd htag
      hattributes closed more
    rw [hc] at hread
    rw [Element.resolved?, Element.declared, Element.steps]
    cases hclosed : content.isEmpty && inner.isEmpty with
    | true =>
      rw [Bool.and_eq_true, List.isEmpty_iff] at hclosed
      obtain ⟨hempty, rfl⟩ := hclosed
      have htext : content = "" := by simpa using hempty
      rw [Element.writeOnto_closed htag hempty, hc, List.cons_append, if_pos rfl,
        Nat.add_comm 1, ← Nat.add_assoc,
        readContent_start (r.stack_within_ne_nil _ _ _ _) hstart, ← List.cons_append, hread]
      cases attributes.all fun a => isQualified a.1 with
      | false => rfl
      | true =>
        simp only [if_true, Reading.scope_within, Bool.not_true, Bool.false_eq_true, if_false]
        cases resolveTag? t.scope tag attributes with
        | none => rfl
        | some t' =>
          simp only [Option.map_some, Option.bind_some, Reading.declaring_within,
            Reading.attach_within, Element.resolvedAll?, Element.declaredAll, List.append_nil]
          rw [readContent_tail _ _ _ _ (by simp) htail, htext]
          rfl
    | false =>
      rw [Element.writeOnto_open htag hclosed, hc, List.cons_append, if_neg Bool.false_ne_true]
      have hfuel : fuel + (content.toList.length + Element.stepsOfAll inner + 2 +
          tail.toList.length) = fuel + tail.toList.length +
            (content.toList.length + Element.stepsOfAll inner + 1) + 1 := by omega
      rw [hfuel, readContent_start (r.stack_within_ne_nil _ _ _ _) hstart, ← List.cons_append, hread]
      cases attributes.all fun a => isQualified a.1 with
      | false => rfl
      | true =>
        simp only [if_true, Reading.scope_within, Bool.not_true, Bool.false_eq_true, if_false]
        cases resolveTag? t.scope tag attributes with
        | none => rfl
        | some t' =>
          simp only [Option.map_some, Option.bind_eq_bind, Option.bind_some]
          have hlevel : floor ≤ ((r.within name t text children).declaring
              (declaredBy attributes)).level := Nat.le_succ_of_le hfloor
          rw [← hc, readContent_body hback hlevel htag hcontent]
          cases Element.resolvedAll? t'.scope inner with
          | none => rfl
          | some inner' =>
            simp only [Option.bind_some, Reading.declaring_within, Reading.attach_within]
            rw [readContent_tail _ _ _ _ (by simp) htail, Reading.declaring_declaring]
            rfl

/-- Reading goes over elements that were written, one behind the other. -/
theorem readsBack (hd : d.attributes = []) : ∀ es : List Element, Element.AreWritable es →
    ReadsBack d expand floor es
  | [], _ => by
    intro r name t text children rest fuel _
    simp [Element.stepsOfAll, Element.writeAllOnto, Element.resolvedAll?, Element.declaredAll,
      Reading.declaring_nil]
  | e :: es, h => by
    intro r name t text children rest fuel hfloor
    rw [Element.AreWritable] at h
    obtain ⟨more, hmore⟩ := Element.exists_writeAllOnto_eq [] es rest
    have hfuel : fuel + Element.stepsOfAll (e :: es) = fuel + Element.stepsOfAll es + e.steps := by
      rw [Element.stepsOfAll]
      omega
    rw [hfuel, Element.writeAllOnto, hmore, readContent_written hd e h.1 r name t text children
      more _ hfloor, ← hmore, Element.resolvedAll?, Element.declaredAll]
    cases e.resolved? t.scope with
    | none => rfl
    | some e' =>
      rw [Option.bind_some, readsBack hd es h.2 (r.declaring e.declared) name t text _ rest fuel
        hfloor, Reading.declaring_declaring]
      cases Element.resolvedAll? t.scope es <;> simp
end

end Content

/-! ### Line ends of what was written -/

namespace Element

theorem not_mem_writtenAttributes {attributes : Fields String}
    (h : ∀ a ∈ attributes, isWord a.1.toList = true ∧ isLegible a.2 = true) :
    '\r' ∉ writtenAttributes [] attributes := by
  intro hmem
  obtain ⟨⟨name, value⟩, ha, hmem⟩ := List.mem_flatMap.mp hmem
  obtain ⟨hword, hvalue⟩ := h _ ha
  dsimp only at hmem hword hvalue
  rw [prefixed_of_isWord hword] at hmem
  have hname : '\r' ∉ name.toList := ne_of_isWord hword (by decide)
  have hescaped : '\r' ∉ escapeValue value := by
    intro hmem
    obtain ⟨c, hc, hmem⟩ := List.mem_flatMap.mp hmem
    exact (valueChar_spec (List.all_eq_true.mp hvalue c hc) _ hmem).1 rfl
  simp [hname, hescaped] at hmem

theorem settleLineEnds_escapeText (s : String) :
    Text.settleLineEnds (escapeText s) = escapeText (Text.withLineFeeds s) := by
  rw [escapeText, settleLineEnds_flatMap_textChar, escapeText, Text.withLineFeeds,
    String.toList_ofList]

theorem not_mem_escapeText {s : String} (h : '\r' ∉ s.toList) : '\r' ∉ escapeText s := by
  have hsettled := settleLineEnds_escapeText s
  rw [Text.withLineFeeds, Text.settleLineEnds_eq_self h, String.ofList_toList] at hsettled
  exact hsettled ▸ Text.not_mem_settleLineEnds _

mutual
/-- **The line ends of an element that was written are those of its texts.** -/
theorem settleLineEnds_writeOnto : ∀ e : Element, e.IsWritable → ∀ rest : List Char,
    Text.settleLineEnds (writeOnto [] [] e rest) =
      writeOnto [] [] e.settled (Text.settleLineEnds rest)
  | mk tag attributes text children tail, h, rest => by
    rw [IsWritable] at h
    obtain ⟨htag, hattributes, -, ⟨-, htail⟩, hchildren⟩ := h
    have hhead : ∀ closed, '\r' ∉ '<' :: (tag.toList ++ (writtenAttributes [] attributes ++
        tagEnd closed)) := by
      have hname : '\r' ∉ tag.toList := ne_of_isWord (isWord_of_isQualifiedName htag) (by decide)
      have hend : ∀ closed, '\r' ∉ tagEnd closed := by decide
      intro closed
      simp [hname, not_mem_writtenAttributes hattributes, hend]
    have hassoc : ∀ (closed : Bool) (more : List Char),
        '<' :: (tag.toList ++ (writtenAttributes [] attributes ++ (tagEnd closed ++ more))) =
          ('<' :: (tag.toList ++ (writtenAttributes [] attributes ++ tagEnd closed))) ++ more := by
      simp
    rw [settled]
    cases hclosed : text.isEmpty && children.isEmpty with
    | true =>
      rw [Bool.and_eq_true, List.isEmpty_iff] at hclosed
      obtain ⟨hempty, rfl⟩ := hclosed
      rw [settledAll, writeOnto_closed htag hempty, writeOnto_closed htag
        (by rwa [Text.isEmpty_withLineFeeds]), hassoc, hassoc,
        Text.settleLineEnds_append_of_not_mem (hhead true),
        Text.settleLineEnds_append_of_not_mem (not_mem_escapeText htail)]
    | false =>
      have hopen : ((Text.withLineFeeds text).isEmpty && (settledAll children).isEmpty) = false := by
        rw [Text.isEmpty_withLineFeeds]
        cases children with
        | nil => exact hclosed
        | cons child children => simp [settledAll]
      obtain ⟨more, hmore⟩ := exists_writeAllOnto_eq [] children
        ('/' :: (tag.toList ++ '>' :: (escapeText tail ++ rest)))
      have hfront : (writeAllOnto [] children ('<' :: '/' :: (tag.toList ++ '>' ::
          (escapeText tail ++ rest)))).head? ≠ some '\n' := by
        rw [hmore]
        simp
      have hclose : '\r' ∉ '<' :: '/' :: (tag.toList ++ '>' :: escapeText tail) := by
        have hname : '\r' ∉ tag.toList :=
          ne_of_isWord (isWord_of_isQualifiedName htag) (by decide)
        simp [hname, not_mem_escapeText htail]
      have hend : ∀ more, '<' :: '/' :: (tag.toList ++ '>' :: (escapeText tail ++ more)) =
          ('<' :: '/' :: (tag.toList ++ '>' :: escapeText tail)) ++ more := by
        simp
      rw [writeOnto_open htag hclosed, writeOnto_open htag hopen, hassoc, hassoc,
        Text.settleLineEnds_append_of_not_mem (hhead false), Text.settleLineEnds_append hfront,
        settleLineEnds_escapeText, settleLineEnds_writeAllOnto children hchildren, hend, hend,
        Text.settleLineEnds_append_of_not_mem hclose]

theorem settleLineEnds_writeAllOnto : ∀ es : List Element, AreWritable es → ∀ rest : List Char,
    Text.settleLineEnds (writeAllOnto [] es rest) =
      writeAllOnto [] (settledAll es) (Text.settleLineEnds rest)
  | [], _, _ => by rw [settledAll, writeAllOnto, writeAllOnto]
  | e :: es, h, rest => by
    rw [AreWritable] at h
    rw [settledAll, writeAllOnto, writeAllOnto, settleLineEnds_writeOnto e h.1,
      settleLineEnds_writeAllOnto es h.2]
end

mutual
theorem isWritable_settled : ∀ e : Element, e.IsWritable → e.settled.IsWritable
  | mk tag attributes text children tail, h => by
    rw [IsWritable] at h
    obtain ⟨htag, hattributes, htext, htail, hchildren⟩ := h
    rw [settled, IsWritable]
    exact ⟨htag, hattributes, isLegible_withLineFeeds htext, htail,
      areWritable_settledAll children hchildren⟩

theorem areWritable_settledAll : ∀ es : List Element, AreWritable es →
    AreWritable (settledAll es)
  | [], h => h
  | e :: es, h => by
    rw [AreWritable] at h
    rw [settledAll, AreWritable]
    exact ⟨isWritable_settled e h.1, areWritable_settledAll es h.2⟩
end

/-! ### The length of what was written -/

theorem length_le_length_escapeText (s : String) :
    s.toList.length ≤ (escapeText s).length := by
  have hchar : ∀ c, 1 ≤ (textChar c).length := by
    intro c
    unfold textChar
    split_ifs <;> simp
  rw [escapeText]
  induction s.toList with
  | nil => exact Nat.le_refl _
  | cons c cs ih =>
    have := hchar c
    rw [List.flatMap_cons, List.length_append, List.length_cons]
    omega

mutual
/-- An element takes no more steps than it has characters. -/
theorem steps_add_le : ∀ e : Element, e.IsWritable → ∀ rest : List Char,
    e.steps + rest.length ≤ (writeOnto [] [] e rest).length
  | mk tag attributes text children tail, h, rest => by
    rw [IsWritable] at h
    obtain ⟨htag, -, -, -, hchildren⟩ := h
    have htail := length_le_length_escapeText tail
    rw [steps]
    cases hclosed : text.isEmpty && children.isEmpty with
    | true =>
      rw [Bool.and_eq_true, List.isEmpty_iff] at hclosed
      obtain ⟨hempty, rfl⟩ := hclosed
      rw [writeOnto_closed htag hempty]
      simp only [if_true, List.length_cons, List.length_append]
      omega
    | false =>
      have htext := length_le_length_escapeText text
      have hinner := stepsOfAll_add_le children hchildren
        ('<' :: '/' :: (tag.toList ++ '>' :: (escapeText tail ++ rest)))
      rw [writeOnto_open htag hclosed]
      simp only [Bool.false_eq_true, if_false, List.length_cons, List.length_append] at hinner ⊢
      omega

theorem stepsOfAll_add_le : ∀ es : List Element, AreWritable es → ∀ rest : List Char,
    stepsOfAll es + rest.length ≤ (writeAllOnto [] es rest).length
  | [], _, rest => by simp [stepsOfAll, writeAllOnto]
  | e :: es, h, rest => by
    rw [AreWritable] at h
    have hfirst := steps_add_le e h.1 (writeAllOnto [] es rest)
    have hrest := stepsOfAll_add_le es h.2 rest
    rw [stepsOfAll, writeAllOnto]
    omega
end

/-! ### Names in what was written -/

mutual
/-- The names in a writable element stand in no namespace. -/
theorem qualified?_of_mem_names : ∀ e : Element, e.IsWritable →
    ∀ name ∈ e.names, qualified? name = none
  | mk tag attributes text children tail, h => by
    rw [IsWritable] at h
    obtain ⟨htag, hattributes, -, -, hchildren⟩ := h
    rw [names]
    intro name hname
    simp only [List.mem_cons, List.mem_append, Fields.names, List.mem_map] at hname
    rcases hname with rfl | ⟨a, ha, rfl⟩ | hname
    · exact qualified?_of_isWord (isWord_of_isQualifiedName htag)
    · exact qualified?_of_isWord (hattributes a ha).1
    · exact qualified?_of_mem_namesOfAll children hchildren name hname

theorem qualified?_of_mem_namesOfAll : ∀ es : List Element, AreWritable es →
    ∀ name ∈ namesOfAll es, qualified? name = none
  | [], _ => by simp [namesOfAll]
  | e :: es, h => by
    rw [AreWritable] at h
    rw [namesOfAll]
    intro name hname
    rcases List.mem_append.mp hname with hname | hname
    · exact qualified?_of_mem_names e h.1 name hname
    · exact qualified?_of_mem_namesOfAll es h.2 name hname
end

theorem prefixes_eq_nil {e : Element} (h : e.IsWritable) : e.prefixes = [] := by
  have hall := qualified?_of_mem_names e h
  rw [prefixes]
  generalize e.names = all at hall ⊢
  induction all with
  | nil => rfl
  | cons name names ih =>
    rw [List.forall_mem_cons] at hall
    rw [List.foldl_cons, bindPrefix, hall.1]
    exact ih hall.2

/-- A writable element is written without namespaces of its own. -/
theorem written_eq {e : Element} (h : e.IsWritable) :
    e.written = String.ofList (writeOnto [] [] e []) := by
  have hnone : declarations [] = [] := by simp [declarations]
  rw [written, prefixes_eq_nil h, hnone]

mutual
theorem writeOnto_append (bound extra : Fields String) : ∀ (e : Element) (rest more : List Char),
    writeOnto bound extra e (rest ++ more) = writeOnto bound extra e rest ++ more
  | mk tag attributes text [] tail, rest, more => by
    rw [writeOnto, writeOnto]
    split <;> simp
  | mk tag attributes text (child :: children) tail, rest, more => by
    have hend : '<' :: '/' :: ((prefixed bound tag).toList ++ '>' ::
        (escapeText tail ++ (rest ++ more))) = ('<' :: '/' :: ((prefixed bound tag).toList ++
          '>' :: (escapeText tail ++ rest))) ++ more := by simp
    rw [writeOnto, writeOnto, hend, writeAllOnto_append]
    simp

theorem writeAllOnto_append (bound : Fields String) : ∀ (es : List Element)
    (rest more : List Char),
    writeAllOnto bound es (rest ++ more) = writeAllOnto bound es rest ++ more
  | [], rest, more => by simp [writeAllOnto]
  | e :: es, rest, more => by
    rw [writeAllOnto, writeAllOnto, writeAllOnto_append bound es, writeOnto_append bound [] e]
end

end Element

/-! ### Documents -/

/-- The first line of a document that was written says nothing of weight. -/
theorem readDeclaration?_declaration (rest : List Char) :
    readDeclaration? (Policy.Tree.declaration.toList ++ '\n' :: rest) =
      some (false, '\n' :: rest) := by
  rfl

/-- In front of a tag there is nothing to skip. -/
theorem skipMisc?_start {c : Char} (hc : isNameStart c = true) {lead : List Char}
    (hlead : ∀ x ∈ lead, isSpace x = true) (rest : List Char) (fuel : Nat) :
    skipMisc? (fuel + 1) (lead ++ '<' :: c :: rest) = some ('<' :: c :: rest) := by
  have hskip : skipSpace (lead ++ '<' :: c :: rest) = '<' :: c :: rest := by
    rw [skipSpace, List.dropWhile_append_of_pos hlead]
    rfl
  rw [skipMisc?, hskip]
  split
  · next h =>
    cases h
    exact absurd hc (by decide)
  · next h =>
    cases h
    exact absurd hc (by decide)
  · rfl

theorem readType?_start {c : Char} (hc : isNameStart c = true) (standalone : Bool)
    (rest : List Char) : readType? standalone ('<' :: c :: rest) =
      some ({ standalone := standalone }, '<' :: c :: rest) := by
  unfold readType?
  split
  · next h =>
    cases h
    exact absurd hc (by decide)
  · rfl

namespace Document

theorem readRoot?_start (d : Doctype) {c : Char} (hc : isNameStart c = true) (rest : List Char) :
    readRoot? d ('<' :: c :: rest) = (readStart? d {} (c :: rest)).bind fun opened =>
      (readContent d (expandContent d d.depth) 0 (opened.2.length + 1) opened.1 opened.2).bind
        fun closed => (skipMisc? (closed.2.length + 1) closed.2).bind fun left =>
          if left.isEmpty then some closed.1 else none := by
  have hskip := skipMisc?_start hc (by simp : ∀ x ∈ ([] : List Char), isSpace x = true) rest
    ('<' :: c :: rest).length
  rw [List.nil_append] at hskip
  rw [readRoot?, hskip]
  rfl

/-- The root of a document that was written is read with its names resolved. -/
theorem readRoot?_written {d : Doctype} (hd : d.attributes = []) {e : Element} (h : e.IsWritable)
    (htail : e.tail = "") :
    readRoot? d (Element.writeOnto [] [] e ['\n']) =
      (e.resolved? [("xml", xmlNamespace)]).map fun root =>
        { declared := e.declared.reverse, root := some root } := by
  match e, h, htail with
  | .mk tag attributes text children tail, h, htail =>
    cases htail
    rw [Element.IsWritable] at h
    obtain ⟨htag, hattributes, htext, -, hchildren⟩ := h
    obtain ⟨c, more, hc, hstart⟩ := htag.exists_cons
    have hread := fun closed more => readStart?_written {} hd htag hattributes closed more
    have hend : ∀ fuel, skipMisc? (fuel + 1) ['\n'] = some [] := fun _ => rfl
    have hscope : ({} : Reading).scope = [("xml", xmlNamespace)] := rfl
    rw [hc] at hread
    rw [Element.resolved?, Element.declared]
    cases hclosed : text.isEmpty && children.isEmpty with
    | true =>
      rw [Bool.and_eq_true, List.isEmpty_iff] at hclosed
      obtain ⟨hempty, rfl⟩ := hclosed
      have htext : text = "" := by simpa using hempty
      rw [Element.writeOnto_closed htag hempty, hc, List.cons_append, readRoot?_start d hstart,
        ← List.cons_append, hread, hscope]
      cases attributes.all fun a => isQualified a.1 with
      | false => rfl
      | true =>
        simp only [if_true, Bool.not_true, Bool.false_eq_true, if_false]
        cases resolveTag? [("xml", xmlNamespace)] tag attributes with
        | none => rfl
        | some t =>
          simp only [Option.map_some, Option.bind_some]
          rw [readContent_done rfl]
          simp [Element.escapeText, hend, Element.resolvedAll?, Element.declaredAll,
            Reading.attach, Reading.declaring, htext]
    | false =>
      have hsteps := Element.stepsOfAll_add_le children hchildren
        ('<' :: '/' :: (tag.toList ++ '>' :: (Element.escapeText "" ++ ['\n'])))
      have hlength := Element.length_le_length_escapeText text
      rw [Element.writeOnto_open htag hclosed, hc, List.cons_append, readRoot?_start d hstart,
        ← List.cons_append, hread, hscope, ← hc]
      cases attributes.all fun a => isQualified a.1 with
      | false => rfl
      | true =>
        simp only [if_true, Bool.not_true, Bool.false_eq_true, if_false]
        cases resolveTag? [("xml", xmlNamespace)] tag attributes with
        | none => rfl
        | some t =>
          simp only [Option.map_some, Option.bind_some, Option.bind_eq_bind]
          -- there are more characters than steps
          obtain ⟨fuel, hfuel⟩ : ∃ fuel, (Element.escapeText text ++ Element.writeAllOnto []
              children ('<' :: '/' :: (tag.toList ++ '>' ::
                (Element.escapeText "" ++ ['\n'])))).length + 1 =
              fuel + (text.toList.length + Element.stepsOfAll children + 1) := by
            refine ⟨_, (Nat.sub_add_cancel ?_).symm⟩
            rw [List.length_append]
            simp only [List.length_cons] at hsteps
            omega
          rw [hfuel, readContent_body (readsBack hd children hchildren) (Nat.zero_le _) htag htext]
          cases Element.resolvedAll? t.scope children with
          | none => rfl
          | some children' =>
            simp only [Option.bind_some]
            rw [readContent_done rfl]
            simp [Element.escapeText, hend, Reading.attach, Reading.declaring]

/-- What is read of a text that was written. -/
theorem reading?_written {e : Element} (h : e.IsWritable) (htail : e.tail = "") :
    reading? (Policy.Tree.declaration ++ "\n" ++ e.written ++ "\n") =
      (e.settled.resolved? [("xml", xmlNamespace)]).map fun root =>
        { declared := e.settled.declared.reverse, root := some root } := by
  have htext : (Policy.Tree.declaration ++ "\n" ++ e.written ++ "\n").toList =
      Policy.Tree.declaration.toList ++ '\n' :: Element.writeOnto [] [] e ['\n'] := by
    have hfeed : "\n".toList = ['\n'] := rfl
    have hend := Element.writeOnto_append [] [] e [] ['\n']
    rw [List.nil_append] at hend
    rw [Element.written_eq h, hend]
    simp [hfeed]
  have hmark : (Policy.Tree.declaration.toList ++ '\n' :: Element.writeOnto [] [] e ['\n']).dropWhile
      (·.toNat = 0xfeff) =
        Policy.Tree.declaration.toList ++ '\n' :: Element.writeOnto [] [] e ['\n'] := rfl
  have hsettled : Text.settleLineEnds (Policy.Tree.declaration.toList ++
      '\n' :: Element.writeOnto [] [] e ['\n']) =
        Policy.Tree.declaration.toList ++ '\n' :: Element.writeOnto [] [] e.settled ['\n'] := by
    have hend : Text.settleLineEnds ['\n'] = ['\n'] := rfl
    rw [Text.settleLineEnds_append_of_not_mem (by decide),
      Text.settleLineEnds_cons_of_ne (by decide), Element.settleLineEnds_writeOnto e h, hend]
  have hwritable := Element.isWritable_settled e h
  have hsettledTail : e.settled.tail = "" := by
    cases e
    exact htail
  obtain ⟨c, more, hc, hmore⟩ := Element.exists_writeOnto_eq_of_isWritable hwritable ['\n']
  have hspace : ∀ x ∈ ['\n'], isSpace x = true := List.forall_mem_singleton.mpr rfl
  have hskip := skipMisc?_start hc hspace more
  simp only [List.singleton_append] at hskip
  rw [reading?, htext, hmark, hsettled, readDeclaration?_declaration]
  simp only [Option.bind_eq_bind, Option.bind_some]
  rw [hmore, hskip]
  simp only [Option.bind_some]
  rw [readType?_start hc, Option.bind_some, ← hmore, readRoot?_written rfl hwritable hsettledTail]

/-- **A document that was written is read as its root with the names resolved.** -/
theorem read_written {e : Element} (h : e.IsWritable) (htail : e.tail = "") :
    Document.read (Policy.Tree.declaration ++ "\n" ++ e.written ++ "\n") =
      match e.settled.resolved? [("xml", xmlNamespace)] with
      | none => .error .malformed
      | some root => .ok ⟨root, e.settled.declared⟩ := by
  rw [Document.read, reading?_written h htail]
  cases e.settled.resolved? [("xml", xmlNamespace)] with
  | none => rfl
  | some root => simp

end Document

end Xml
end TrustFramework
