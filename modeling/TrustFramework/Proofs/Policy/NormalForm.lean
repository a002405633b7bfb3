import TrustFramework.Proofs.Policy.Acceptance

/-!
# Validation before and after normal form

In normal form every element that may repeat is in a list.  A list is looked through item by item,
but an empty text that stands alone is taken for no element.  So normal form brings to light the
elements that may repeat, stand alone and say nothing: validation misses them before, and finds
each of them without an identifier after.  Nothing else that validation looks at changes.

## Main definitions

* `Tree.hidden` — the element of a name that normal form brings to light.
* `hiddenIn` — those that validation looks for.

## Main results

* `Tree.named_normalize` — **the children in normal form are the hidden one and those there were.**
* `length_validate_normalize` — each hidden element is one problem more.
* `validate_normalize_iff` — **the problems are the same exactly if nothing is hidden.**
* `validate_normalize_hidden` — a tree in which they are not.
-/

namespace TrustFramework

open Policy.Tree

namespace Policy
namespace Tree

variable {name : String}

/-- The element of a name that normal form brings to light: it may repeat, stands alone and is
taken for none. -/
def hidden (name : String) (node : Value) : List Value :=
  match node.get? name with
  | none => []
  | some v =>
    if repeatable.contains name && !v.isList && (Node.asList v).isEmpty then [v] else []

theorem hidden_eq_nil_of_repeatable (h : repeatable.contains name = false) (node : Value) :
    hidden name node = [] := by
  rw [hidden, h]
  cases node.get? name <;> rfl

/-- What is hidden is hollow. -/
theorem isHollow_of_mem_hidden {node v : Value} (h : v ∈ hidden name node) :
    v.isHollow = true := by
  rw [hidden] at h
  cases hget : node.get? name with
  | none =>
    rw [hget] at h
    cases h
  | some w =>
    simp only [hget] at h
    split at h
    · next hw =>
      obtain rfl := List.mem_singleton.mp h
      obtain ⟨hlist, hnone⟩ := Bool.and_eq_true_iff.mp hw
      cases v with
      | null => rfl
      | text s => simpa [Node.asList] using hnone
      | list items => simp [Value.isList] at hlist
      | _ => simp [Node.asList] at hnone
    · cases h

/-! ### Values in normal form -/

theorem listed_of_repeatable (h : repeatable.contains name = true) (v : Value) :
    listed name v = if v.isList then v else .list [v] := by
  rw [listed, h]
  cases v <;> rfl

theorem listed_of_not_repeatable (h : repeatable.contains name = false) (v : Value) :
    listed name v = v := by
  rw [listed, h]
  rfl

theorem isHollow_normalize (v : Value) : (normalize v).isHollow = v.isHollow := by
  cases v with
  | list items => simp [normalize_list, Value.isHollow]
  | object fields => simp [normalize_object, Value.isHollow]
  | _ => simp [normalize]

theorem isObject_normalize (v : Value) : (normalize v).isObject = v.isObject := by
  cases v <;> simp [normalize, Value.isObject]

theorem isList_normalize (v : Value) : (normalize v).isList = v.isList := by
  cases v <;> simp [normalize, Value.isList]

theorem asList_normalize (v : Value) :
    Node.asList (normalize v) = (Node.asList v).map normalize := by
  cases v with
  | list items => simp [normalize_list, Node.asList]
  | text s => by_cases hs : s.isEmpty = true <;> simp [normalize, Node.asList, hs]
  | _ => simp [normalize, Node.asList]

theorem get?_normalize (node : Value) (name : String) :
    (normalize node).get? name = (node.get? name).map fun v => listed name (normalize v) := by
  cases node with
  | object fields =>
    rw [normalize]
    exact get?_normalizeFields fields name
  | _ => simp [normalize, Value.get?]

/-- A value of an element that may repeat is in a list, whatever it is. -/
theorem asList_listed_normalize (h : repeatable.contains name = true) (v : Value) :
    Node.asList (listed name (normalize v)) =
      (if !v.isList && (Node.asList v).isEmpty then [v] else []) ++
        (Node.asList v).map normalize := by
  rw [listed_of_repeatable h]
  cases v with
  | list items => simp [normalize_list, Value.isList, Node.asList]
  | text s =>
    by_cases hs : s.isEmpty = true <;> simp [normalize, Value.isList, Node.asList, hs]
  | _ => simp [normalize, Value.isList, Node.asList]

/-- **The children of a name in normal form are the hidden one and those there were.** -/
theorem named_normalize (name : String) (node : Value) :
    Node.named name (normalize node) =
      hidden name node ++ (Node.named name node).map normalize := by
  rw [named_eq_asList, named_eq_asList, get?_normalize, hidden]
  cases node.get? name with
  | none => rfl
  | some v =>
    simp only [Option.map_some, Option.getD_some]
    cases h : repeatable.contains name with
    | true => exact asList_listed_normalize h v
    | false =>
      rw [listed_of_not_repeatable h, asList_normalize]
      rfl

/-- A path of names that do not repeat leads to the same elements. -/
theorem children_normalize (node : Value) {path : List String}
    (h : ∀ name ∈ path, repeatable.contains name = false) :
    Node.children (normalize node) path = (Node.children node path).map normalize := by
  induction path generalizing node with
  | nil => rfl
  | cons name path ih =>
    rw [List.forall_mem_cons] at h
    rw [children_cons, children_cons, named_normalize,
      hidden_eq_nil_of_repeatable h.1, List.nil_append, List.flatMap_map, List.map_flatMap]
    exact List.flatMap_congr fun child _ => ih child h.2

theorem children_concat (node : Value) (path : List String) (last : String) :
    Node.children node (path ++ [last]) =
      (Node.children node path).flatMap (Node.named last) := by
  simp [Node.children]

/-- At the end of a path the hidden elements come to light, each before the others below its
parent. -/
theorem children_normalize_concat (node : Value) {path : List String} (last : String)
    (h : ∀ name ∈ path, repeatable.contains name = false) :
    Node.children (normalize node) (path ++ [last]) =
      (Node.children node path).flatMap fun parent =>
        hidden last parent ++ (Node.named last parent).map normalize := by
  rw [children_concat, children_normalize node h, List.flatMap_map]
  exact List.flatMap_congr fun parent _ => named_normalize last parent

end Tree

/-! ### Problems in normal form -/

theorem states_normalize (node : Value) {name : String} (h : repeatable.contains name = false) :
    states (Tree.normalize node) name = states node name := by
  rw [states, states, Value.get, Value.get, get?_normalize]
  cases node.get? name with
  | none => rfl
  | some v => simp [listed_of_not_repeatable h, isHollow_normalize]

/-- What is hollow states nothing. -/
theorem states_of_isHollow {v : Value} (h : v.isHollow = true) (name : String) :
    states v name = false := by
  cases v with
  | object fields =>
    obtain rfl : fields = [] := by simpa [Value.isHollow] using h
    rfl
  | _ => rfl

/-- What validation finds at the root does not change. -/
theorem rootProblems_normalize (fileName : String) (root : Value) :
    rootProblems fileName (Tree.normalize root) = rootProblems fileName root := by
  have hbase : repeatable.contains "BasePolicy" = false := by decide
  rw [rootProblems, rootProblems, states_normalize root (by decide),
    states_normalize root (by decide), get?_normalize]
  cases root.get? "BasePolicy" with
  | none => rfl
  | some base =>
    simp only [Option.map_some, listed_of_not_repeatable hbase]
    rw [states_normalize base (by decide)]

/-- Each element without an identifier is one problem. -/
theorem length_missingIds (fileName : String) (root : Value) (path : List String) :
    (missingIds fileName root path).length =
      (Node.children root path).countP fun e => !states e "@_Id" := by
  have hitems : (positioned (Node.children root path)).map Prod.snd = Node.children root path := by
    rw [positioned]
    exact List.map_snd_zip (by simp)
  rw [missingIds, List.length_filterMap_eq_countP]
  conv_rhs => rw [← hitems, List.countP_map]
  refine List.countP_congr ?_
  intro numbered _
  rw [Function.comp_apply]
  cases hstates : states numbered.2 "@_Id" with
  | true => simp [hstates]
  | false => simp [hstates]

/-- The problems of elements are those of the elements in normal form. -/
theorem missingIds_congr (fileName : String) {root other : Value} {path : List String}
    (h : Node.children other path = (Node.children root path).map Tree.normalize) :
    missingIds fileName other path = missingIds fileName root path := by
  rw [missingIds, missingIds, h, positioned, positioned, List.length_map, List.zip_map_right,
    List.filterMap_map]
  refine List.filterMap_congr fun e _ => ?_
  simp only [Function.comp_apply, Prod.map_snd, Prod.map_fst, id_eq]
  rw [states_normalize _ (by decide)]

/-- The elements of a policy that validation misses until the policy is in normal form. -/
def hiddenIn (root : Value) : List Value :=
  identified.flatMap fun path =>
    (Node.children root path.dropLast).flatMap (hidden (path.getLastD ""))

section

variable {root : Value} {path : List String}

/-- A path of validation ends in the one name of it that may repeat. -/
theorem repeatable_eq_false_of_mem_identified (h : path ∈ identified) :
    ∀ name ∈ path.dropLast, repeatable.contains name = false := by
  have hall : ∀ path ∈ identified, ∀ name ∈ path.dropLast, repeatable.contains name = false := by
    decide
  exact hall path h

/-- The elements in normal form that validation looks for. -/
theorem children_normalize_of_mem_identified (h : path ∈ identified) (root : Value) :
    Node.children (Tree.normalize root) path =
      (Node.children root path.dropLast).flatMap fun parent => hidden (path.getLastD "") parent ++
        (Node.named (path.getLastD "") parent).map Tree.normalize := by
  conv_lhs => rw [Xml.Document.eq_concat_of_mem_identified h]
  exact children_normalize_concat root _ (repeatable_eq_false_of_mem_identified h)

theorem children_of_mem_identified (h : path ∈ identified) (root : Value) :
    Node.children root path =
      (Node.children root path.dropLast).flatMap (Node.named (path.getLastD "")) := by
  conv_lhs => rw [Xml.Document.eq_concat_of_mem_identified h, children_concat]

/-- An element that comes to light has no identifier. -/
theorem length_missingIds_normalize (fileName : String) (h : path ∈ identified) :
    (missingIds fileName (Tree.normalize root) path).length =
      ((Node.children root path.dropLast).flatMap (hidden (path.getLastD ""))).length +
        (missingIds fileName root path).length := by
  rw [length_missingIds, length_missingIds, children_normalize_of_mem_identified h,
    children_of_mem_identified h]
  generalize Node.children root path.dropLast = parents
  generalize path.getLastD "" = last
  induction parents with
  | nil => rfl
  | cons parent parents ih =>
    have hlight : (hidden last parent).countP (fun e => !states e "@_Id") =
        (hidden last parent).length := by
      refine List.countP_eq_length.mpr fun v hv => ?_
      rw [states_of_isHollow (isHollow_of_mem_hidden hv)]
      rfl
    have hothers :
        ((Node.named last parent).map Tree.normalize).countP (fun e => !states e "@_Id") =
          (Node.named last parent).countP fun e => !states e "@_Id" := by
      rw [List.countP_map]
      refine List.countP_congr fun e _ => ?_
      rw [Function.comp_apply, states_normalize e (by decide)]
    simp only [List.flatMap_cons, List.countP_append, List.length_append, ih, hlight, hothers]
    omega

/-- Nothing changes below a path that hides nothing. -/
theorem missingIds_normalize (fileName : String) (h : path ∈ identified)
    (hnone : (Node.children root path.dropLast).flatMap (hidden (path.getLastD "")) = []) :
    missingIds fileName (Tree.normalize root) path = missingIds fileName root path := by
  refine missingIds_congr fileName ?_
  rw [children_normalize_of_mem_identified h, children_of_mem_identified h, List.map_flatMap]
  refine List.flatMap_congr fun parent hparent => ?_
  rw [List.flatMap_eq_nil_iff.mp hnone parent hparent, List.nil_append]

end

theorem get_rootName_normalize (tree : Value) :
    (Tree.normalize tree).get rootName = Tree.normalize (tree.get rootName) := by
  have hroot : repeatable.contains rootName = false := by decide
  rw [Value.get, Value.get, get?_normalize]
  cases tree.get? rootName with
  | none => simp [Tree.normalize]
  | some root => simp [listed_of_not_repeatable hroot]

section

variable {tree : Value}

theorem validate_normalize_of_not_isObject (h : (tree.get rootName).isObject = false)
    (fileName : String) : validate (Tree.normalize tree) fileName = validate tree fileName := by
  have hnormal : ((Tree.normalize tree).get rootName).isObject = false := by
    rw [get_rootName_normalize, isObject_normalize, h]
  rw [validate_of_not_isObject hnormal, validate_of_not_isObject h]

/-- There is no element in what is no policy. -/
theorem hiddenIn_of_not_isObject {root : Value} (h : root.isObject = false) :
    hiddenIn root = [] := by
  cases root with
  | object fields => cases h
  | _ => rfl

/-- **Each element that comes to light in normal form is one problem more.** -/
theorem length_validate_normalize (tree : Value) (fileName : String) :
    (validate (Tree.normalize tree) fileName).length =
      (hiddenIn (tree.get rootName)).length + (validate tree fileName).length := by
  cases hobject : (tree.get rootName).isObject with
  | false =>
    rw [validate_normalize_of_not_isObject hobject, hiddenIn_of_not_isObject hobject]
    simp
  | true =>
    have hnormal : ((Tree.normalize tree).get rootName).isObject = true := by
      rw [get_rootName_normalize, isObject_normalize, hobject]
    rw [validate_of_isObject hnormal, validate_of_isObject hobject, get_rootName_normalize,
      rootProblems_normalize, hiddenIn, List.length_append, List.length_append]
    have hpaths : ∀ paths : List (List String), (∀ path ∈ paths, path ∈ identified) →
        (paths.flatMap (missingIds fileName (Tree.normalize (tree.get rootName)))).length =
          (paths.flatMap fun path => (Node.children (tree.get rootName) path.dropLast).flatMap
            (hidden (path.getLastD ""))).length +
            (paths.flatMap (missingIds fileName (tree.get rootName))).length := by
      intro paths
      induction paths with
      | nil => intro; rfl
      | cons path paths ih =>
        intro hmem
        rw [List.forall_mem_cons] at hmem
        simp only [List.flatMap_cons, List.length_append,
          length_missingIds_normalize fileName hmem.1, ih hmem.2]
        omega
    rw [hpaths identified fun _ h => h]
    omega

/-- **The problems of a tree and of its normal form are the same exactly if nothing is hidden**: no
element that may repeat and should have an identifier stands alone and is nothing or an empty
text. -/
theorem validate_normalize_iff (tree : Value) (fileName : String) :
    validate (Tree.normalize tree) fileName = validate tree fileName ↔
      hiddenIn (tree.get rootName) = [] := by
  constructor
  · intro hsame
    have hlength := length_validate_normalize tree fileName
    rw [hsame] at hlength
    exact List.length_eq_zero_iff.mp (by omega)
  · intro hnone
    cases hobject : (tree.get rootName).isObject with
    | false => exact validate_normalize_of_not_isObject hobject fileName
    | true =>
      have hnormal : ((Tree.normalize tree).get rootName).isObject = true := by
        rw [get_rootName_normalize, isObject_normalize, hobject]
      rw [validate_of_isObject hnormal, validate_of_isObject hobject, get_rootName_normalize,
        rootProblems_normalize]
      refine congrArg _ (List.flatMap_congr fun path hpath => ?_)
      exact missingIds_normalize fileName hpath (List.flatMap_eq_nil_iff.mp hnone path hpath)

end

/-- A policy whose one journey is an empty element. -/
def emptyJourney : Value :=
  .object [(rootName, .object
    [("@_PolicyId", .text "P"), ("@_TenantId", .text "contoso"),
      ("UserJourneys", .object [("UserJourney", .text "")])])]

/-- A journey that says nothing is missed before normal form and found after. -/
theorem validate_normalize_hidden :
    isValid (validate emptyJourney "policy.xml") = true ∧
      isValid (validate (Tree.normalize emptyJourney) "policy.xml") = false ∧
      ¬ ∀ (tree : Value) (fileName : String),
        validate (Tree.normalize tree) fileName = validate tree fileName := by
  have hbefore : isValid (validate emptyJourney "policy.xml") = true := by decide
  have hafter : isValid (validate (Tree.normalize emptyJourney) "policy.xml") = false := by
    decide
  refine ⟨hbefore, hafter, fun h => ?_⟩
  rw [h, hbefore] at hafter
  cases hafter

end Policy
end TrustFramework
