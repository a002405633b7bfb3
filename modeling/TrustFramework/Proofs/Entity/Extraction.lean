import Mathlib.Data.List.Forall2
import TrustFramework.Proofs.Inheritance.Consolidated
import TrustFramework.Proofs.Naming
import TrustFramework.Proofs.Policy.NormalForm

/-!
# What extraction adds

Validation and extraction go through a policy by ways of their own.  Validation asks for an
identifier where extraction skips an element that has none; a claims provider goes by a label that
it always has, and only display controls are left to have an identifier or not.  So of a policy
that validation accepts every element gives one version, behind those of the same thing, in the
order of the elements.

## Main definitions

* `Kind.elementsIn` — the elements of a policy that define things of a kind.
* `Version.IsReadFrom` — a version says what an element says.
* `Collection.HasGained` — a collection with one more version for each of some elements.
* `Store.HasGained` — a store with one more version for each element of a policy.

## Main results

* `Collection.hasGained_recordAll` — what is found in elements is what a collection gains.
* `Node.id?_isSome_of_states` — what validation takes for an identifier names a thing.
* `Store.hasGained_extract` — **a policy that is accepted is extracted completely.**
-/

namespace TrustFramework

open Policy

/-! ### Texts of values -/

namespace Value

theorem toString_ne_empty (n : Int) : toString n ≠ "" := by
  have hnat : ∀ n : Nat, n.repr ≠ "" := by
    intro n hempty
    have hdigits := Nat.toList_repr (n := n)
    rw [hempty, String.toList_empty] at hdigits
    exact Nat.toDigits_ne_nil hdigits.symm
  rw [Int.toString_eq_repr, Int.repr_eq_if]
  split
  · exact hnat _
  · intro hempty
    exact hnat _ (String.append_eq_empty_iff.mp hempty).2

theorem toText_ne_empty (x : Binary64) : x.toText ≠ "" := by
  have hlayOut : ∀ (digits : List Char) (k : Int), Binary64.layOut digits k ≠ "" := by
    intro digits k
    rw [Binary64.layOut]
    split
    · simp
    · split <;> simp
  cases x with
  | nan => decide
  | infinite negative => cases negative <;> decide
  | finite negative m e =>
    have hbody : (if m = 0 then "0.0" else
        Binary64.layOut (Binary64.shortest m e).1 (Binary64.shortest m e).2) ≠ "" := by
      split
      · decide
      · exact hlayOut _ _
    cases negative with
    | false => exact hbody
    | true =>
      intro hempty
      exact hbody (String.append_eq_empty_iff.mp hempty).2

/-- **A value that is not hollow shows something.** -/
theorem shown_ne_empty {v : Value} (h : v.isHollow = false) : v.shown ≠ "" := by
  cases v with
  | null => cases h
  | bool b => cases b <;> decide
  | int n => exact toString_ne_empty n
  | real x => exact toText_ne_empty x
  | text s => simpa using h
  | list items => simp [shown, literal]
  | object fields => simp [shown, literal]

end Value

/-- What validation takes for an identifier names a thing. -/
theorem Policy.Node.id?_isSome_of_states {e : Value} (h : states e "@_Id" = true) :
    (Node.id? e).isSome = true := by
  have hfield : Tree.attributeField "Id" = "@_Id" := rfl
  rw [states, Value.get] at h
  rw [Node.id?, Node.solidAttribute?, Node.attribute?, hfield]
  cases hget : e.get? "@_Id" with
  | none =>
    rw [hget] at h
    cases h
  | some v =>
    have hsolid : v.isHollow = false := by simpa [hget] using h
    have hshown := Value.shown_ne_empty hsolid
    cases v with
    | null => cases hsolid
    | _ => simpa [Option.filter] using hshown

/-! ### Elements and versions -/

/-- The elements of a policy that define things of a kind. -/
def Kind.elementsIn : Kind → Value → List Value
  | .claimTypes, root => Node.children root ["BuildingBlocks", "ClaimsSchema", "ClaimType"]
  | .claimsTransformations, root =>
    Node.children root ["BuildingBlocks", "ClaimsTransformations", "ClaimsTransformation"]
  | .displayControls, root =>
    (Node.children root ["BuildingBlocks", "DisplayControls", "DisplayControl"]).filter
      fun e => (Node.id? e).isSome
  | .claimsProviders, root => Node.children root ["ClaimsProviders", "ClaimsProvider"]
  | .technicalProfiles, root =>
    Node.children root
        ["ClaimsProviders", "ClaimsProvider", "TechnicalProfiles", "TechnicalProfile"] ++
      Node.children root ["RelyingParty", "TechnicalProfile"]
  | .userJourneys, root => Node.children root ["UserJourneys", "UserJourney"]
  | .subJourneys, root => Node.children root ["SubJourneys", "SubJourney"]

section

variable {α : Type} [Definition α]

/-- A version says what an element says: it goes by the name of the element, stands in the given
file, and holds the element as it is written and as it is read. -/
structure Version.IsReadFrom (source : Source) (name? : Value → Option String)
    (Reads : Value → α → Prop) (e : Value) (v : Version α) : Prop where
  name_eq : name? e = some v.id
  source_eq : v.source = source
  xml_eq : v.xml = Tree.fragment (Definition.element α) e
  reads : Reads e v.body

/-- A collection with one more version for each of some elements, in their order, each behind the
versions of the same thing. -/
def Collection.HasGained (source : Source) (name? : Value → Option String)
    (Reads : Value → α → Prop) (elements : List Value) (c c' : Collection α) : Prop :=
  ∃ news, List.Forall₂ (Version.IsReadFrom source name? Reads) elements news ∧
    (∀ id, c'.versions id = c.versions id ++ news.filter fun v => v.id = id) ∧
    c'.count = c.count + news.length

/-- A definition found in an element. -/
structure Found.IsFoundIn (name? : Value → Option String) (Reads : Value → α → Prop) (e : Value)
    (f : Found α) : Prop where
  name_eq : name? e = some f.id
  node_eq : f.node = e
  reads : Reads e f.body

namespace Collection

variable {name? : Value → Option String} {Reads : Value → α → Prop}

omit [Definition α] in
theorem count_cons (entry : String × List (Version α)) (c : Collection α) :
    Collection.count (entry :: c) = entry.2.length + c.count := by
  have hfoldl : ∀ (c : Collection α) (n : Nat),
      c.foldl (fun n entry => n + entry.2.length) n = n + Collection.count c := by
    intro c
    induction c with
    | nil => intro n; rfl
    | cons entry c ih =>
      intro n
      have hcount : Collection.count (entry :: c) = 0 + entry.2.length + Collection.count c := ih _
      rw [List.foldl_cons, ih, hcount]
      omega
  have hcount : Collection.count (entry :: c) = 0 + entry.2.length + Collection.count c :=
    hfoldl c _
  omega

omit [Definition α] in
/-- One more version is one more. -/
theorem count_add (c : Collection α) (v : Version α) : (c.add v).count = c.count + 1 := by
  induction c with
  | nil => rfl
  | cons entry c ih =>
    obtain ⟨n, versions⟩ := entry
    by_cases hn : n = v.id
    · simp only [add, Fields.set, Collection.versions, Fields.get?, if_pos hn, count_cons,
        Option.getD_some, List.length_append, List.length_singleton]
      omega
    · have hadd : Collection.add ((n, versions) :: c) v = (n, versions) :: Collection.add c v := by
        simp only [add, Fields.set, Collection.versions, Fields.get?, if_neg hn]
      rw [hadd, count_cons, count_cons, ih]
      omega

/-- **What is found in elements is what a collection gains.** -/
theorem hasGained_recordAll {source : Source} {elements : List Value} {found : List (Found α)}
    (h : List.Forall₂ (Found.IsFoundIn name? Reads) elements found) (c : Collection α) :
    c.HasGained source name? Reads elements (c.recordAll source found) := by
  rw [recordAll]
  induction h generalizing c with
  | nil => exact ⟨[], .nil, by simp, rfl⟩
  | @cons e f elements found hf _ ih =>
    obtain ⟨news, hnews, hversions, hcount⟩ := ih (c.record source f)
    -- the first element gives the first version, which stands before the others
    let v : Version α :=
      { id := f.id
        source
        path := f.path
        isOverride := (c.originals f.id).any fun v => v.source.fileName ≠ source.fileName
        xml := Tree.fragment (Definition.element α) f.node
        body := f.body }
    have hrecord : c.record source f = c.add v := rfl
    refine ⟨v :: news, .cons ⟨hf.name_eq, rfl, ?_, hf.reads⟩ hnews, ?_, ?_⟩
    · show Tree.fragment (Definition.element α) f.node = _
      rw [hf.node_eq]
    · intro id
      rw [List.foldl_cons, hversions, hrecord, versions_add, List.filter_cons, List.append_assoc]
      by_cases hid : v.id = id <;> simp [hid]
    · rw [List.foldl_cons, hcount, hrecord, count_add, List.length_cons]
      omega

end Collection

/-! ### What is found in elements -/

omit [Definition α] in
/-- What is read off every element is read in their order. -/
theorem forall₂_filterMap {β γ : Type} {R : β → γ → Prop} {g : β → Option γ} {items : List β}
    (h : ∀ x ∈ items, ∃ y, g x = some y ∧ R x y) : List.Forall₂ R items (items.filterMap g) := by
  induction items with
  | nil => exact .nil
  | cons x items ih =>
    obtain ⟨⟨y, hy, hR⟩, hrest⟩ := List.forall_mem_cons.mp h
    rw [List.filterMap_cons, hy]
    exact .cons hR (ih hrest)

omit [Definition α] in
theorem forall₂_flatMap {β γ δ : Type} {R : γ → δ → Prop} {f : β → List γ} {g : β → List δ}
    {items : List β} (h : ∀ x ∈ items, List.Forall₂ R (f x) (g x)) :
    List.Forall₂ R (items.flatMap f) (items.flatMap g) := by
  induction items with
  | nil => exact .nil
  | cons x items ih =>
    obtain ⟨hx, hrest⟩ := List.forall_mem_cons.mp h
    exact List.rel_append hx (ih hrest)

omit [Definition α] in
/-- An element with an identifier defines a thing. -/
theorem exists_isFoundIn (element base : String) (read : Value → α) {e : Value}
    (h : (Node.id? e).isSome = true) : ∃ f, identified? element base read e = some f ∧
      f.IsFoundIn Node.id? (fun e body => body = read e) e := by
  obtain ⟨id, hid⟩ := Option.isSome_iff_exists.mp h
  exact ⟨_, by rw [identified?, hid]; rfl, hid, rfl, rfl⟩

omit [Definition α] in
/-- Elements that all have identifiers all define things. -/
theorem forall₂_foundIn {root : Value} (path : List String) {element : String} {read : Value → α}
    (h : ∀ e ∈ Node.children root (path ++ [element]), (Node.id? e).isSome = true) :
    List.Forall₂ (Found.IsFoundIn Node.id? fun e body => body = read e)
      (Node.children root (path ++ [element])) (foundIn root path element read) :=
  forall₂_filterMap fun e he => exists_isFoundIn _ _ _ (h e he)

end

/-- The technical profile that an element defines, with the name of some claims provider. -/
def IsProfileOf (e : Value) (body : TechnicalProfile) : Prop :=
  ∃ provider, body = TechnicalProfile.read provider e

/-- The claims provider that an element defines. -/
def IsProviderOf (e : Value) (body : ClaimsProvider) : Prop :=
  body = ⟨some (providerLabel e), (profilesOfProvider e).map Found.id⟩

/-- Display controls without an identifier define nothing. -/
theorem forall₂_displayControlsIn (root : Value) :
    List.Forall₂ (Found.IsFoundIn Node.id? fun e body => body = DisplayControl.read e)
      (Kind.displayControls.elementsIn root) (displayControlsIn root) := by
  have hskip : displayControlsIn root = (Kind.displayControls.elementsIn root).filterMap
      (identified? "DisplayControl" (rootPath ++ "/" ++ "/".intercalate ["BuildingBlocks",
        "DisplayControls"]) DisplayControl.read) := by
    rw [Kind.elementsIn, List.filterMap_filter]
    refine List.filterMap_congr fun e _ => ?_
    rw [identified?]
    cases Node.id? e <;> rfl
  rw [hskip]
  refine forall₂_filterMap fun e he => exists_isFoundIn _ _ _ ?_
  exact (List.mem_filter.mp he).2

/-- A claims provider always has a label. -/
theorem forall₂_claimsProvidersIn (root : Value) :
    List.Forall₂ (Found.IsFoundIn (fun e => some (providerLabel e)) IsProviderOf)
      (Kind.claimsProviders.elementsIn root) (claimsProvidersIn root) :=
  List.forall₂_map_right_iff.mpr (List.forall₂_same.mpr fun _ _ => ⟨rfl, rfl, rfl⟩)

/-- The profiles of claims providers, provider by provider, and then those of the relying party. -/
theorem forall₂_technicalProfilesIn {root : Value}
    (h : ∀ e ∈ Kind.technicalProfiles.elementsIn root, (Node.id? e).isSome = true) :
    List.Forall₂ (Found.IsFoundIn Node.id? IsProfileOf) (Kind.technicalProfiles.elementsIn root)
      (technicalProfilesIn root) := by
  have hproviders : Node.children root
      ["ClaimsProviders", "ClaimsProvider", "TechnicalProfiles", "TechnicalProfile"] =
      (providerNodes root).flatMap fun provider =>
        Node.children provider ["TechnicalProfiles", "TechnicalProfile"] := by
    simp [providerNodes, Node.children, List.flatMap_assoc]
  rw [Kind.elementsIn, hproviders] at h ⊢
  rw [technicalProfilesIn]
  refine List.rel_append (forall₂_flatMap fun provider hprovider => ?_) ?_
  · refine forall₂_filterMap fun e he => ?_
    obtain ⟨f, hf, hfound⟩ := exists_isFoundIn "TechnicalProfile"
      (providerPath provider ++ "/TechnicalProfiles")
      (TechnicalProfile.read (providerLabel provider))
      (h e (List.mem_append_left _ (List.mem_flatMap.mpr ⟨provider, hprovider, he⟩)))
    exact ⟨f, hf, hfound.name_eq, hfound.node_eq, _, hfound.reads⟩
  · have hparty : ∀ e ∈ Node.children root (["RelyingParty"] ++ ["TechnicalProfile"]),
        (Node.id? e).isSome = true := fun e he => h e (List.mem_append_right _ he)
    exact (forall₂_foundIn ["RelyingParty"] hparty).imp fun e f hf =>
      ⟨hf.name_eq, hf.node_eq, _, hf.reads⟩

/-! ### Stores -/

namespace Store

/-- A store with one more version for each element of a policy that defines something. -/
structure HasGained (source : Source) (root : Value) (store store' : Store) : Prop where
  claimTypes : store.claimTypes.HasGained source Node.id? (fun e body => body = ClaimType.read e)
    (Kind.claimTypes.elementsIn root) store'.claimTypes
  claimsTransformations : store.claimsTransformations.HasGained source Node.id?
    (fun e body => body = ClaimsTransformation.read e)
    (Kind.claimsTransformations.elementsIn root) store'.claimsTransformations
  displayControls : store.displayControls.HasGained source Node.id?
    (fun e body => body = DisplayControl.read e) (Kind.displayControls.elementsIn root)
    store'.displayControls
  claimsProviders : store.claimsProviders.HasGained source (fun e => some (providerLabel e))
    IsProviderOf (Kind.claimsProviders.elementsIn root) store'.claimsProviders
  technicalProfiles : store.technicalProfiles.HasGained source Node.id? IsProfileOf
    (Kind.technicalProfiles.elementsIn root) store'.technicalProfiles
  userJourneys : store.userJourneys.HasGained source Node.id?
    (fun e body => body = UserJourney.read e) (Kind.userJourneys.elementsIn root)
    store'.userJourneys
  subJourneys : store.subJourneys.HasGained source Node.id?
    (fun e body => body = SubJourney.read e) (Kind.subJourneys.elementsIn root) store'.subJourneys

/-- The versions that a store gains are as many as the elements. -/
theorem HasGained.count_eq {source : Source} {root : Value} {store store' : Store}
    (h : HasGained source root store store') : store'.count =
      store.count + (Kind.all.map fun kind => (kind.elementsIn root).length).sum := by
  obtain ⟨_, htypes, -, hcountTypes⟩ := h.claimTypes
  obtain ⟨_, htransformations, -, hcountTransformations⟩ := h.claimsTransformations
  obtain ⟨_, hcontrols, -, hcountControls⟩ := h.displayControls
  obtain ⟨_, hproviders, -, hcountProviders⟩ := h.claimsProviders
  obtain ⟨_, hprofiles, -, hcountProfiles⟩ := h.technicalProfiles
  obtain ⟨_, hjourneys, -, hcountJourneys⟩ := h.userJourneys
  obtain ⟨_, hsubJourneys, -, hcountSubJourneys⟩ := h.subJourneys
  simp only [Store.count, hcountTypes, hcountTransformations, hcountControls, hcountProviders,
    hcountProfiles, hcountJourneys, hcountSubJourneys, ← htypes.length_eq,
    ← htransformations.length_eq, ← hcontrols.length_eq, ← hproviders.length_eq,
    ← hprofiles.length_eq, ← hjourneys.length_eq, ← hsubJourneys.length_eq, Kind.all,
    List.map_cons, List.map_nil, List.sum_cons, List.sum_nil]
  omega

/-- **A policy that is accepted is extracted completely.**  Whatever a store holds, each element of
the policy adds one version to it, behind those of the same thing, and the versions that are added
are as many as the elements. -/
theorem hasGained_extract {tree : Value} {fileName : String}
    (hvalid : isValid (validate tree fileName) = true) (store : Store) (source : Source) :
    HasGained source (tree.get rootName) store (store.extract source tree) ∧
      (store.extract source tree).count - store.count =
        (Kind.all.map fun kind => (kind.elementsIn (tree.get rootName)).length).sum := by
  have hnamed : ∀ path ∈ Policy.identified, ∀ e ∈ Node.children (tree.get rootName) path,
      (Node.id? e).isSome = true := fun path hpath e he =>
    Node.id?_isSome_of_states (states_of_isValid hvalid hpath e he)
  have hgained : HasGained source (tree.get rootName) store (store.extract source tree) :=
    { claimTypes := Collection.hasGained_recordAll
        (forall₂_foundIn ["BuildingBlocks", "ClaimsSchema"] (hnamed _ (by decide))) _
      claimsTransformations := Collection.hasGained_recordAll
        (forall₂_foundIn ["BuildingBlocks", "ClaimsTransformations"]
          (hnamed _ (by decide))) _
      displayControls := Collection.hasGained_recordAll (forall₂_displayControlsIn _) _
      claimsProviders := Collection.hasGained_recordAll (forall₂_claimsProvidersIn _) _
      technicalProfiles := by
        refine Collection.hasGained_recordAll (forall₂_technicalProfilesIn fun e he => ?_) _
        rcases List.mem_append.mp he with he | he
        · exact hnamed _ (by decide) e he
        · exact hnamed _ (by decide) e he
      userJourneys := Collection.hasGained_recordAll
        (forall₂_foundIn ["UserJourneys"] (hnamed _ (by decide))) _
      subJourneys := Collection.hasGained_recordAll
        (forall₂_foundIn ["SubJourneys"] (hnamed _ (by decide))) _ }
  refine ⟨hgained, ?_⟩
  rw [hgained.count_eq]
  omega

/-- A policy with a journey, a claims provider that has a profile, one that is a mere text, and a
display control without an identifier. -/
def shortPolicy : Value :=
  .object [(rootName, .object
    [("@_PolicyId", .text "P"),
      ("BuildingBlocks", .object [("DisplayControls", .object [("DisplayControl", .object
        [("@_UserInterfaceControlType", .text "VerificationControl")])])]),
      ("ClaimsProviders", .object [("ClaimsProvider", .list
        [.object
          [("DisplayName", .text "Local"),
            ("TechnicalProfiles", .object [("TechnicalProfile", .object
              [("@_Id", .text "Login")])])],
          .text "Other"])]),
      ("UserJourneys", .object [("UserJourney", .list [.object [("@_Id", .text "SignIn")]])])])]

/-- Read twice, the policy adds four versions each time. -/
theorem hasGained_extract_shortPolicy :
    let source : Source := ⟨"policy.xml", "P", 0⟩
    let store := Store.extract {} source shortPolicy
    isValid (validate shortPolicy "policy.xml") = true ∧
      HasGained source (shortPolicy.get rootName) store (store.extract source shortPolicy) ∧
        (store.extract source shortPolicy).count - store.count = 4 := by
  intro source store
  have hvalid : isValid (validate shortPolicy "policy.xml") = true := by decide
  exact ⟨hvalid, hasGained_extract hvalid store source⟩

end Store
end TrustFramework
