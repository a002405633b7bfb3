import TrustFramework.Policy.Validation
import TrustFramework.Proofs.Fallible
import TrustFramework.Proofs.Inheritance.Lookup
import TrustFramework.Proofs.Policy.Elements

/-!
# Which policies are valid

A policy document should name itself, should name its base if it says that it has one, and should
give an identifier to every element that others refer to.  Validation looks for this in the tree
of the document, where an empty text is taken for no element.  So an element that says nothing,
and therefore gives no identifier, is found in company and missed where it is alone; only names
that may repeat are always lists and never missed.

## Main definitions

* `Document.gives` — an element of a document gives an attribute a text.
* `Document.IsIdentified` — what a policy document should be.
* `Document.IsAcceptable` — what it has to be.
* `Document.IsThorough` — nothing that it should be is missed.

## Main results

* `isValid_iff` — a tree has no errors exactly if what is looked up in it is there.
* `isValid_ofDocument_iff` — **a policy document is valid exactly if it is acceptable.**
* `isValid_parse_iff` — so is the text of one, and this is all that it should be exactly if nothing
  is missed.
-/

namespace TrustFramework

open Xml Policy.Tree

namespace Policy

/-! ### Errors of a tree -/

theorem isValid_append {problems more : List Problem} :
    isValid (problems ++ more) = true ↔ isValid problems = true ∧ isValid more = true := by
  rw [isValid, List.any_append, Bool.not_or, Bool.and_eq_true]
  rfl

theorem isValid_flatMap {α : Type} {items : List α} {problems : α → List Problem} :
    isValid (items.flatMap problems) = true ↔ ∀ item ∈ items, isValid (problems item) = true := by
  induction items with
  | nil => simp [isValid]
  | cons item items ih => rw [List.flatMap_cons, isValid_append, ih, List.forall_mem_cons]

section

variable {fileName : String} {root : Value}

/-- An element without an identifier is an error. -/
theorem isValid_missingIds {path : List String} : isValid (missingIds fileName root path) = true ↔
    ∀ e ∈ Node.children root path, states e "@_Id" = true := by
  simp only [isValid, Bool.not_eq_true', List.any_eq_false, missingIds, List.mem_filterMap]
  constructor
  · intro hvalid e he
    have hplaced : (positioned (Node.children root path)).map Prod.snd = Node.children root path :=
      List.map_snd_zip (by simp)
    rw [← hplaced] at he
    obtain ⟨⟨position, e⟩, hplace, rfl⟩ := List.mem_map.mp he
    by_contra hstates
    exact hvalid _ ⟨(position, e), hplace, if_neg hstates⟩ rfl
  · rintro hall p ⟨⟨position, e⟩, hplace, hp⟩
    rw [hall e (List.of_mem_zip hplace).2] at hp
    cases hp

/-- The root has to name the policy, and its base if it has one; a missing tenant is no error. -/
theorem isValid_rootProblems : isValid (rootProblems fileName root) = true ↔
    states root "@_PolicyId" = true ∧
      ∀ base ∈ root.get? "BasePolicy", states base "PolicyId" = true := by
  rw [rootProblems, isValid_append, isValid_append, and_assoc]
  refine and_congr ?_ ((and_iff_right ?_).trans ?_)
  · cases states root "@_PolicyId" <;> simp [isValid]
  · cases states root "@_TenantId" <;> simp [isValid]
  · cases root.get? "BasePolicy" with
    | none => simp [isValid]
    | some base => cases hbase : states base "PolicyId" <;> simp [isValid, hbase]

section

variable {tree : Value}

/-- The problems of a policy are those of its root and of its elements. -/
theorem validate_of_isObject (h : (tree.get rootName).isObject = true) (fileName : String) :
    validate tree fileName = rootProblems fileName (tree.get rootName) ++
      identified.flatMap (missingIds fileName (tree.get rootName)) := by
  rw [validate]
  generalize tree.get rootName = root at h
  cases root with
  | object fields => rfl
  | _ => cases h

/-- What is no policy has one problem. -/
theorem validate_of_not_isObject (h : (tree.get rootName).isObject = false) (fileName : String) :
    validate tree fileName = [⟨s!"Missing root element <{rootName}>", .error, fileName, "/"⟩] := by
  rw [validate]
  generalize tree.get rootName = root at h
  cases root with
  | object fields => cases h
  | _ => rfl

/-- What validation accepts is a policy. -/
theorem isObject_of_isValid (h : isValid (validate tree fileName) = true) :
    (tree.get rootName).isObject = true := by
  by_contra hobject
  rw [validate_of_not_isObject (Bool.eq_false_iff.mpr hobject)] at h
  cases h

/-- What validation accepts has all identifiers that it looks for. -/
theorem states_of_isValid (h : isValid (validate tree fileName) = true) {path : List String}
    (hpath : path ∈ identified) :
    ∀ e ∈ Node.children (tree.get rootName) path, states e "@_Id" = true := by
  rw [validate_of_isObject (isObject_of_isValid h), isValid_append, isValid_flatMap] at h
  exact isValid_missingIds.mp (h.2 path hpath)

end

/-- **A tree has no errors exactly if what is looked up in it is there.** -/
theorem isValid_validate_iff {fields : Fields Value} :
    isValid (validate (.object [(rootName, .object fields)]) fileName) = true ↔
      states (.object fields) "@_PolicyId" = true ∧
        (∀ base ∈ fields.get? "BasePolicy", states base "PolicyId" = true) ∧
        ∀ path ∈ identified, ∀ e ∈ Node.children (.object fields) path,
          states e "@_Id" = true := by
  have hroot : (Value.object [(rootName, .object fields)]).get rootName = .object fields := rfl
  rw [validate, hroot]
  dsimp only
  rw [isValid_append, isValid_rootProblems, isValid_flatMap, and_assoc]
  exact and_congr_right fun _ => and_congr_right fun _ => forall₂_congr fun _ _ => isValid_missingIds

end

end Policy

/-! ### What a document needs -/

namespace Xml
namespace Document

open Policy

/-- An element of a document gives an attribute a text that is not empty. -/
def Gives (document : Document) (name : String) (e : Element) : Prop :=
  ∃ s, e.given? (prefixesOf document.declared) name = some s ∧ s ≠ ""

/-- What a policy document should be.  The policy has an identifier; a base stands once and has an
identifier that says something; and so does every element that others refer to. -/
structure IsIdentified (document : Document) : Prop where
  policyId : document.Gives "PolicyId" document.root
  basePolicy : ∀ base ∈ document.root.named "BasePolicy",
    document.root.named "BasePolicy" = [base] ∧ ∃ id ∈ base.named "PolicyId", id.isBare = false
  ids : ∀ path ∈ identified, ∀ e ∈ document.root.under path, document.Gives "Id" e

/-- What a policy document has to be.  Of several identifiers of a base none needs to say something,
and an element that is overlooked needs no identifier. -/
@[mk_iff]
structure IsAcceptable (document : Document) : Prop where
  policyId : document.Gives "PolicyId" document.root
  basePolicy : ∀ base ∈ document.root.named "BasePolicy",
    document.root.named "BasePolicy" = [base] ∧ base.named "PolicyId" ≠ [] ∧
      ∀ id, base.named "PolicyId" = [id] → id.isBare = false
  ids : ∀ path ∈ identified, ∀ parent ∈ document.root.under path.dropLast,
    overlooks (path.getLastD "") parent = true ∨
      ∀ e ∈ parent.named (path.getLastD ""), document.Gives "Id" e

/-- Nothing is missed: if a base has several identifiers, one of them says something, and no
element that others refer to is overlooked. -/
structure IsThorough (document : Document) : Prop where
  basePolicy : ∀ base ∈ document.root.named "BasePolicy",
    1 < (base.named "PolicyId").length → ∃ id ∈ base.named "PolicyId", id.isBare = false
  ids : ∀ path ∈ identified, ∀ parent ∈ document.root.under path.dropLast,
    overlooks (path.getLastD "") parent = false

theorem eq_concat_of_mem_identified {path : List String} (h : path ∈ identified) :
    path = path.dropLast ++ [path.getLastD ""] := by
  have hall : ∀ path ∈ identified, path = path.dropLast ++ [path.getLastD ""] := by decide
  exact hall path h

theorem isElement_of_mem_identified {path : List String} (h : path ∈ identified) :
    ∀ name ∈ path, isElement name = true := by
  have hall : ∀ path ∈ identified, ∀ name ∈ path, isElement name = true := by decide
  exact hall path h

variable {document : Document}

theorem not_gives_of_isBare {name : String} {e : Element} (h : e.isBare = true) :
    ¬ document.Gives name e := by
  rintro ⟨s, hgiven, -⟩
  have hnil : e.attributes = [] :=
    List.isEmpty_iff.mp (Bool.and_eq_true_iff.mp (Bool.and_eq_true_iff.mp h).1).1
  rw [Element.given?, hnil] at hgiven
  cases hgiven

/-- **A document is all that it should be exactly if it is acceptable and nothing is missed.** -/
theorem isIdentified_iff : document.IsIdentified ↔ document.IsAcceptable ∧ document.IsThorough := by
  have hunder : ∀ path ∈ identified, ∀ e, e ∈ document.root.under path ↔
      ∃ parent ∈ document.root.under path.dropLast, e ∈ parent.named (path.getLastD "") := by
    intro path hpath e
    conv_lhs => rw [eq_concat_of_mem_identified hpath, Element.under_concat]
    exact List.mem_flatMap
  constructor
  · intro h
    refine ⟨⟨h.policyId, fun base hbase => ?_, fun path hpath parent hparent => Or.inr fun e he =>
      h.ids path hpath e ((hunder path hpath e).mpr ⟨parent, hparent, he⟩)⟩,
      ⟨fun base hbase _ => (h.basePolicy base hbase).2, fun path hpath parent hparent => ?_⟩⟩
    · obtain ⟨halone, id, hid, hsays⟩ := h.basePolicy base hbase
      refine ⟨halone, List.ne_nil_of_mem hid, fun other hother => ?_⟩
      rw [hother, List.mem_singleton] at hid
      rwa [← hid]
    -- an element that is overlooked has no attributes
    · refine Bool.eq_false_iff.mpr fun hover => ?_
      obtain ⟨child, hchild, hbare⟩ := exists_of_overlooks hover
      have hmem : child ∈ parent.named (path.getLastD "") := hchild ▸ List.mem_cons_self
      exact not_gives_of_isBare hbare
        (h.ids path hpath child ((hunder path hpath child).mpr ⟨parent, hparent, hmem⟩))
  · rintro ⟨hacceptable, hthorough⟩
    refine ⟨hacceptable.policyId, fun base hbase => ?_, fun path hpath e he => ?_⟩
    · obtain ⟨halone, hsome, hsays⟩ := hacceptable.basePolicy base hbase
      refine ⟨halone, ?_⟩
      match hids : base.named "PolicyId" with
      | [] => exact absurd hids hsome
      | [id] => exact ⟨id, List.mem_cons_self, hsays id hids⟩
      | first :: second :: rest =>
        rw [← hids]
        exact hthorough.basePolicy base hbase (by simp [hids])
    · obtain ⟨parent, hparent, he⟩ := (hunder path hpath e).mp he
      have hover := hthorough.ids path hpath parent hparent
      obtain hmissed | hall := hacceptable.ids path hpath parent hparent
      · rw [hover] at hmissed
        cases hmissed
      · exact hall e he

end Document
end Xml

/-! ### Validation of a document -/

namespace Policy

variable {document : Xml.Document}

theorem states_attributeField {e : Element} (he : e.IsSound) {name : String}
    (hname : ':' ∉ name.toList) :
    states (valueOf (prefixesOf document.declared) e) (attributeField name) = true ↔
      document.Gives name e := by
  rw [states, Value.get, get?_attributeField_valueOf he hname, Xml.Document.Gives]
  cases e.given? (prefixesOf document.declared) name with
  | none => simp [Value.isHollow]
  | some s => simp

/-- A base is named if it has several identifiers, or one that says something. -/
theorem states_policyId {prefixes : Prefixes} {base : Element} :
    states (valueOf prefixes base) "PolicyId" = true ↔ base.named "PolicyId" ≠ [] ∧
      ∀ id, base.named "PolicyId" = [id] → id.isBare = false := by
  rw [states, Value.get, get?_valueOf (by decide)]
  match base.named "PolicyId" with
  | [] => simp [grouped, Value.isHollow]
  | [id] =>
    have hlisted : listed "PolicyId" (valueOf prefixes id) = valueOf prefixes id := rfl
    simp [grouped, Fields.get?, hlisted, isHollow_valueOf]
  | first :: second :: rest => simp [grouped, Fields.get?, Value.isHollow]

/-- The fields of the root of the tree of a document. -/
def fieldsOf (document : Xml.Document) : Fields Value :=
  (namespaceFields document.declared).update
    (rootFields (valueOf (prefixesOf document.declared) document.root))

theorem ofDocument_eq_fieldsOf (hname : bareName document.root.tag = rootName) :
    ofDocument document = .object [(rootName, .object (fieldsOf document))] :=
  ofDocument_eq hname rfl

/-- The fields of the root are those of the value of its element, but for the text and what declares
a namespace. -/
theorem get?_fieldsOf {field : String} (hfield : field ≠ textField)
    (hdeclared : (namespaceFields document.declared).get? field = none) :
    (fieldsOf document).get? field =
      (valueOf (prefixesOf document.declared) document.root).get? field := by
  have honce : (valueOf (prefixesOf document.declared) document.root).namesOnce = true :=
    namesOnce_normalize _ (namesOnce_convert _ _)
  rw [fieldsOf, Fields.get?_update, hdeclared, Option.or_none]
  obtain ⟨s, hvalue⟩ | ⟨fields, hvalue⟩ := valueOf_cases (prefixesOf document.declared) document.root
  · rw [hvalue, rootFields]
    · split
      · rfl
      · simp [Fields.last?, Value.get?, Ne.symm hfield]
    · simp
  · rw [hvalue] at honce ⊢
    exact Fields.last?_eq_get? (Value.namesOnce_object_iff.mp honce).1 field

theorem get?_fieldsOf_of_isElement {name : String} (h : isElement name = true) :
    (fieldsOf document).get? name =
      (valueOf (prefixesOf document.declared) document.root).get? name := by
  refine get?_fieldsOf (ne_textField_of_isElement h) ?_
  rw [namespaceFields_eq]
  exact get?_asFields_of_ne (attributeOf?_eq_none_of_isElement h)

theorem get?_namespaceFields_policyId (declared : List (String × String)) :
    (namespaceFields declared).get? (attributeField "PolicyId") = none := by
  rw [namespaceFields_eq, get?_asFields, Option.map_eq_none_iff, Fields.get?_eq_none_iff]
  intro hmem
  obtain ⟨a, ha, hname⟩ := List.mem_map.mp hmem
  obtain ⟨d, -, rfl⟩ := List.mem_map.mp (of_mem_ofPairs ha)
  -- what declares a namespace begins like `xmlns`
  have hhead : (declarationName d.1).toList.head? = some 'x' := by
    rw [declarationName]
    split
    · rfl
    · rw [String.toList_append]
      rfl
  rw [show declarationName d.1 = "PolicyId" from hname] at hhead
  cases hhead

theorem states_fieldsOf_policyId (hroot : document.root.IsSound) :
    states (.object (fieldsOf document)) "@_PolicyId" = true ↔
      document.Gives "PolicyId" document.root := by
  have hget : (fieldsOf document).get? "@_PolicyId" = _ :=
    get?_fieldsOf (by decide) (get?_namespaceFields_policyId document.declared)
  rw [← states_attributeField hroot (by decide), states, Value.get, Value.get?, hget]
  rfl

/-- A base is looked up as a field, which is a list where several stand. -/
theorem states_basePolicy_iff :
    (∀ base ∈ (fieldsOf document).get? "BasePolicy", states base "PolicyId" = true) ↔
      ∀ base ∈ document.root.named "BasePolicy", document.root.named "BasePolicy" = [base] ∧
        base.named "PolicyId" ≠ [] ∧ ∀ id, base.named "PolicyId" = [id] → id.isBare = false := by
  rw [get?_fieldsOf_of_isElement (by decide), get?_valueOf (by decide)]
  obtain _ | ⟨base, _ | ⟨second, rest⟩⟩ := document.root.named "BasePolicy"
  · simp [grouped]
  · have hgrouped : Fields.get? (grouped "BasePolicy"
        ([base].map (valueOf (prefixesOf document.declared)))) "BasePolicy" =
          some (valueOf (prefixesOf document.declared) base) := rfl
    rw [hgrouped]
    simp only [Option.mem_some_iff, forall_eq', List.mem_singleton, forall_eq, true_and]
    exact states_policyId
  · exact iff_of_false (fun h => Bool.false_ne_true (h _ rfl))
      fun h => by cases (h base List.mem_cons_self).1

/-- Under a path every element that is not overlooked is looked up. -/
theorem states_id_iff (hroot : document.root.IsSound) {path : List String}
    (hpath : path ∈ identified) :
    (∀ e ∈ Node.children (.object (fieldsOf document)) path, states e "@_Id" = true) ↔
      ∀ parent ∈ document.root.under path.dropLast, overlooks (path.getLastD "") parent = true ∨
        ∀ e ∈ parent.named (path.getLastD ""), document.Gives "Id" e := by
  have hnames := Xml.Document.isElement_of_mem_identified hpath
  have hconcat := Xml.Document.eq_concat_of_mem_identified hpath
  have hchildren : Node.children (.object (fieldsOf document)) path =
      Node.children (valueOf (prefixesOf document.declared) document.root) path := by
    cases path with
    | nil => cases hconcat
    | cons name path =>
      rw [children_cons, children_cons, named_eq_asList, named_eq_asList,
        ← get?_fieldsOf_of_isElement (hnames name List.mem_cons_self), Value.get?]
  generalize path.dropLast = init at *
  generalize path.getLastD "" = last at *
  subst hconcat
  have hlast : isElement last = true := hnames last (by simp)
  rw [hchildren, children_valueOf _ fun name hname => hnames name (List.mem_append_left _ hname)]
  simp only [List.mem_flatMap, forall_exists_index, and_imp]
  constructor
  · intro hall parent hparent
    cases hover : overlooks last parent with
    | true => exact Or.inl rfl
    | false =>
      refine Or.inr fun e he => ?_
      have hsound : e.IsSound := (hroot.of_mem_under hparent).of_mem_named he
      refine (states_attributeField hsound (by decide)).mp (hall _ parent hparent ?_)
      rw [named_valueOf hlast, hover]
      exact List.mem_map_of_mem he
  · intro hall v parent hparent hv
    rw [named_valueOf hlast] at hv
    split at hv
    · cases hv
    · next hover =>
      obtain ⟨e, he, rfl⟩ := List.mem_map.mp hv
      have hsound : e.IsSound := (hroot.of_mem_under hparent).of_mem_named he
      exact (states_attributeField hsound (by decide)).mpr
        ((hall parent hparent).resolve_left hover e he)

/-- **A policy document is valid exactly if it is acceptable.** -/
theorem isValid_ofDocument_iff (hroot : document.root.IsSound)
    (hname : bareName document.root.tag = rootName) (fileName : String) :
    isValid (validate (ofDocument document) fileName) = true ↔ document.IsAcceptable := by
  rw [ofDocument_eq_fieldsOf hname, isValid_validate_iff, states_fieldsOf_policyId hroot,
    states_basePolicy_iff, Xml.Document.isAcceptable_iff]
  exact and_congr_right fun _ => and_congr_right fun _ => forall₂_congr fun _ =>
    states_id_iff hroot

/-- **The text of a policy is valid exactly if its document is acceptable**, and an acceptable
document is all that it should be exactly if nothing is missed in it. -/
theorem isValid_parse_iff {xml : String} {tree : Value} (h : parse xml = .ok tree)
    (fileName : String) : ∃ document, Xml.Document.read xml = .ok document ∧
      (bareName document.root.tag = rootName →
        (isValid (validate tree fileName) = true ↔ document.IsAcceptable) ∧
          (document.IsIdentified ↔ document.IsAcceptable ∧ document.IsThorough)) := by
  unfold parse at h
  split at h
  · cases h
  split at h
  · next document hread =>
    cases h
    exact ⟨document, hread, fun hname =>
      ⟨isValid_ofDocument_iff (Xml.Document.isSound_of_read hread).1 hname fileName,
        Xml.Document.isIdentified_iff⟩⟩
  · cases h
  · cases h

theorem parse_eq_ok {xml : String} (hblank : Text.isBlankText xml = false)
    (h : Xml.Document.read xml = .ok document) : parse xml = .ok (ofDocument document) := by
  rw [parse, hblank, if_neg Bool.false_ne_true, h]

/-- Whether the document of a text is a policy and its tree is valid. -/
def isValidPolicy (document : Xml.Document) : Bool :=
  bareName document.root.tag = rootName && isValid (validate (ofDocument document) "policy.xml")

set_option maxRecDepth 4000 in
/-- A policy whose one claim type has an identifier. -/
theorem isValid_parse_claimType :
    let xml := "<TrustFrameworkPolicy PolicyId=\"P\"><BuildingBlocks><ClaimsSchema>" ++
      "<ClaimType Id=\"email\"/></ClaimsSchema></BuildingBlocks></TrustFrameworkPolicy>"
    ∃ tree, parse xml = .ok tree ∧ isValid (validate tree "policy.xml") = true ∧
      ∃ document, Xml.Document.read xml = .ok document ∧ document.IsAcceptable := by
  intro xml
  have hpolicy : (Xml.Document.read xml).toOption.any isValidPolicy = true := by decide +kernel
  obtain ⟨read, hread, hpolicy⟩ := exists_eq_ok_of_any hpolicy
  obtain ⟨hname, hvalid⟩ := Bool.and_eq_true_iff.mp hpolicy
  have hparse := parse_eq_ok (by decide) hread
  obtain ⟨document, hdocument, hiff⟩ := isValid_parse_iff hparse "policy.xml"
  cases hread.symm.trans hdocument
  exact ⟨_, hparse, hvalid, read, hread, (hiff (of_decide_eq_true hname)).1.mp hvalid⟩

set_option maxRecDepth 4000 in
/-- The one claim type of a policy says nothing and has no identifier, and nobody objects. -/
theorem claimType_overlooked :
    let xml := "<TrustFrameworkPolicy PolicyId=\"P\"><BuildingBlocks><ClaimsSchema>" ++
      "<ClaimType/></ClaimsSchema></BuildingBlocks></TrustFrameworkPolicy>"
    ∃ tree, parse xml = .ok tree ∧ isValid (validate tree "policy.xml") = true ∧
      ∃ document, Xml.Document.read xml = .ok document ∧
        bareName document.root.tag = rootName ∧ ¬ document.IsIdentified := by
  intro xml
  have hmissing : (Xml.Document.read xml).toOption.any (fun document =>
      isValidPolicy document &&
        (document.root.under ["BuildingBlocks", "ClaimsSchema", "ClaimType"]).any Element.isBare) =
      true := by decide +kernel
  obtain ⟨document, hread, hmissing⟩ := exists_eq_ok_of_any hmissing
  obtain ⟨hpolicy, hbare⟩ := Bool.and_eq_true_iff.mp hmissing
  obtain ⟨hname, hvalid⟩ := Bool.and_eq_true_iff.mp hpolicy
  obtain ⟨e, he, hbare⟩ := List.any_eq_true.mp hbare
  refine ⟨_, parse_eq_ok (by decide) hread, hvalid, document, hread, of_decide_eq_true hname,
    fun h => ?_⟩
  exact Xml.Document.not_gives_of_isBare hbare (h.ids _ List.mem_cons_self e he)

end Policy
end TrustFramework
