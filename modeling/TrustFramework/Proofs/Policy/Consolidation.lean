import TrustFramework.Entity.Extraction
import TrustFramework.Policy.Consolidation
import TrustFramework.Proofs.Policy.Merging

/-!
# Sections of the consolidated policy

A policy is laid onto another section by section, and no rule for one section touches another.
So what a section of the consolidated policy holds is a matter of that section in the policies
it was made of: journeys are laid onto each other by their identifiers, claims providers by
their names, and the profiles of a provider by their identifiers again.

## Main definitions

* `IsIdMerged` — a section of its own that merges by identifier.
* `soleName?`, `HasOneName` — the name of a provider, and that it has no other.
* `rootOf` — the fields of a policy's root.

## Main results

* `get?_mergePolicy_of_isIdMerged`, `get?_mergePolicy_claimsProviders`,
  `get?_mergePolicy_relyingParty` — the sections of a merged policy.
* `children_foldl_mergePolicy` — **the elements of a section merged by identifier are those of
  all policies, laid onto each other.**
* `providerNodes_foldl_mergePolicy` — **the claims providers are those of all policies.**
* `filter_profiles_foldl_mergePolicy` — **a profile is what its definitions in all policies are,
  laid onto each other.**
* `consolidate_eq_ok` — the consolidated policy is that of the policies merged, but for the
  attributes of the last one.
-/

namespace TrustFramework
namespace Policy

open Policy.Node

variable {target source : Fields Value} {name element : String}

/-! ### What a section is untouched by -/

theorem get?_changeAt_of_ne {root : Fields Value} {first : String} {rest : List String}
    {f : Fields Value → Fields Value} (h : name ≠ first) :
    Fields.get? (changeAt root (first :: rest) f) name = root.get? name := by
  rw [changeAt]
  exact Fields.get?_set_of_ne _ _ h

theorem get?_changeAt_self {root : Fields Value} {f : Fields Value → Fields Value} :
    Fields.get? (changeAt root [name] f) name =
      some (.object (f (containerFields (root.get? name)))) := by
  rw [changeAt, Fields.get?_set_self, changeAt]

theorem get?_mergeSection_of_ne {path : List String} (hpath : path ≠ [])
    (h : path.head? ≠ some name) :
    Fields.get? (mergeSection target source path element) name = target.get? name := by
  obtain _ | ⟨first, rest⟩ := path
  · exact absurd rfl hpath
  unfold mergeSection
  split
  · rfl
  · exact get?_changeAt_of_ne fun heq => h (by simp [heq])

theorem get?_foldl_mergeSection_of_ne {parts : List (List String × String)}
    (hpaths : ∀ part ∈ parts, part.1 ≠ []) (h : ∀ part ∈ parts, part.1.head? ≠ some name) :
    Fields.get? (parts.foldl (fun target part => mergeSection target source part.1 part.2) target)
      name = target.get? name := by
  induction parts generalizing target with
  | nil => rfl
  | cons part parts ih =>
    rw [List.forall_mem_cons] at hpaths h
    rw [List.foldl_cons, ih hpaths.2 h.2, get?_mergeSection_of_ne hpaths.1 h.1]

theorem get?_mergeLocalization_of_ne (h : name ≠ "BuildingBlocks") :
    Fields.get? (mergeLocalization target source) name = target.get? name := by
  unfold mergeLocalization
  split
  · exact get?_changeAt_of_ne h
  · rfl

theorem get?_mergeProviders_of_ne (h : name ≠ "ClaimsProviders") :
    Fields.get? (mergeProviders target source) name = target.get? name := by
  unfold mergeProviders
  split
  · rfl
  · exact get?_changeAt_of_ne h

theorem get?_replaceRelyingParty_of_ne (h : name ≠ "RelyingParty") :
    Fields.get? (replaceRelyingParty target source) name = target.get? name := by
  unfold replaceRelyingParty
  split
  · exact Fields.get?_set_of_ne _ _ h
  · rfl

/-- Sections with rules of their own are not added. -/
theorem get?_addNewSections_of_mem (h : name ∈ handledSections) :
    Fields.get? (addNewSections target source) name = target.get? name := by
  unfold addNewSections
  induction source generalizing target with
  | nil => rfl
  | cons entry source ih =>
    rw [List.foldl_cons, ih]
    split
    · rfl
    · next hcond =>
      refine Fields.get?_set_of_ne _ _ ?_
      rintro rfl
      simp [h] at hcond

/-! ### Sections merged by identifier -/

theorem get?_mergeSection_congr {other : Fields Value} (h : target.get? name = other.get? name) :
    Fields.get? (mergeSection target source [name] element) name =
      Fields.get? (mergeSection other source [name] element) name := by
  unfold mergeSection
  split
  · exact h
  · rw [get?_changeAt_self, get?_changeAt_self, h]

/-- A section of its own that merges by identifier, and by nothing else. -/
structure IsIdMerged (name element : String) : Prop where
  exists_split : ∃ before after, idMergedSections = before ++ ([name], element) :: after ∧
    (∀ part ∈ before, part.1.head? ≠ some name) ∧ ∀ part ∈ after, part.1.head? ≠ some name
  mem_handledSections : name ∈ handledSections
  ne_buildingBlocks : name ≠ "BuildingBlocks"
  ne_claimsProviders : name ≠ "ClaimsProviders"
  ne_relyingParty : name ≠ "RelyingParty"
  ne_basePolicy : name ≠ "BasePolicy"

theorem isIdMerged_userJourneys : IsIdMerged "UserJourneys" "UserJourney" where
  exists_split := ⟨idMergedSections.take 6, idMergedSections.drop 7, rfl, by decide, by decide⟩
  mem_handledSections := by decide
  ne_buildingBlocks := by decide
  ne_claimsProviders := by decide
  ne_relyingParty := by decide
  ne_basePolicy := by decide

theorem isIdMerged_subJourneys : IsIdMerged "SubJourneys" "SubJourney" where
  exists_split := ⟨idMergedSections.take 7, idMergedSections.drop 8, rfl, by decide, by decide⟩
  mem_handledSections := by decide
  ne_buildingBlocks := by decide
  ne_claimsProviders := by decide
  ne_relyingParty := by decide
  ne_basePolicy := by decide

theorem get?_mergePolicy_of_isIdMerged (h : IsIdMerged name element) :
    Fields.get? (mergePolicy target source) name =
      Fields.get? (mergeSection target source [name] element) name := by
  obtain ⟨before, after, hparts, hbefore, hafter⟩ := h.exists_split
  have hpaths : ∀ part ∈ before ++ ([name], element) :: after, part.1 ≠ [] := by
    rw [← hparts]
    decide
  -- of all parts of the merge only its own one touches the section
  simp only [mergePolicy]
  rw [get?_addNewSections_of_mem h.mem_handledSections,
    get?_replaceRelyingParty_of_ne h.ne_relyingParty,
    get?_mergeProviders_of_ne h.ne_claimsProviders,
    get?_mergeLocalization_of_ne h.ne_buildingBlocks, hparts, List.foldl_append, List.foldl_cons]
  rw [List.forall_mem_append, List.forall_mem_cons] at hpaths
  rw [get?_foldl_mergeSection_of_ne hpaths.2.2 hafter]
  exact get?_mergeSection_congr (get?_foldl_mergeSection_of_ne hpaths.1 hbefore)

/-- The elements of a section are a matter of the section. -/
theorem children_section_eq (root : Fields Value) (name element : String) :
    children (.object root) [name, element] =
      (asList ((root.get? name).getD .null)).flatMap (named element) := by
  simp [children, named]

/-- The elements of a section that is no list of sections. -/
theorem children_section_eq_itemsAt {root : Fields Value}
    (h : ((Value.object root).get name).isList = false) :
    children (.object root) [name, element] =
      itemsAt (containerFields (root.get? name)) element := by
  rw [children_section_eq]
  have h : ((root.get? name).getD .null).isList = false := h
  cases hget : root.get? name with
  | none => rfl
  | some v =>
    rw [hget, Option.getD_some] at h
    cases v with
    | list items => cases h
    | object fields => simp [asList, named, containerFields, itemsAt]
    | text s =>
      by_cases hs : s.isEmpty = true <;> simp [asList, named, containerFields, itemsAt, hs]
    | _ => simp [asList, named, containerFields, itemsAt]

theorem get_eq_of_get?_eq {root other : Fields Value} (h : root.get? name = other.get? name) :
    (Value.object root).get name = (Value.object other).get name :=
  congrArg (Option.getD · Value.null) h

theorem children_section_congr {root other : Fields Value}
    (h : root.get? name = other.get? name) :
    children (.object root) [name, element] = children (.object other) [name, element] := by
  rw [children_section_eq, children_section_eq, h]

/-- The elements of a section that was set to be an object. -/
theorem children_section_of_get? {root fields : Fields Value} {items : List Value}
    (h : root.get? name = some (.object (fields.set element (.list items)))) :
    children (.object root) [name, element] = items ∧
      ((Value.object root).get name).isList = false := by
  have hget : (Value.object root).get name = .object (fields.set element (.list items)) :=
    congrArg (Option.getD · Value.null) h
  refine ⟨?_, by rw [hget]; rfl⟩
  rw [children_section_eq, h]
  simp [asList, named]

/-- **The elements of a section merged by identifier are laid onto those that were there.** -/
theorem children_mergePolicy (h : IsIdMerged name element)
    (hsingle : ((Value.object target).get name).isList = false) (source : Fields Value) :
    children (.object (mergePolicy target source)) [name, element] =
        (children (.object source) [name, element]).foldl (lay id? mergeElement)
          (children (.object target) [name, element]) ∧
      ((Value.object (mergePolicy target source)).get name).isList = false := by
  have hget : Fields.get? (mergePolicy target source) name =
      Fields.get? (mergeSection target source [name] element) name :=
    get?_mergePolicy_of_isIdMerged h
  unfold mergeSection at hget
  split at hget
  · next hnone =>
    rw [List.singleton_append] at hnone
    rw [hnone, children_section_congr hget, get_eq_of_get?_eq hget]
    exact ⟨rfl, hsingle⟩
  · rw [get?_changeAt_self, List.singleton_append] at hget
    rw [children_section_eq_itemsAt hsingle, ← mergeItems_eq_foldl]
    exact children_section_of_get? hget

/-- **The elements of a section merged by identifier are those of all policies, laid onto each
other.** -/
theorem children_foldl_mergePolicy (h : IsIdMerged name element) {base : Fields Value}
    (hsingle : ((Value.object base).get name).isList = false) (derived : List (Fields Value)) :
    children (.object (derived.foldl mergePolicy base)) [name, element] =
      (derived.flatMap fun root => children (.object root) [name, element]).foldl
        (lay id? mergeElement) (children (.object base) [name, element]) := by
  induction derived generalizing base with
  | nil => rfl
  | cons source derived ih =>
    obtain ⟨hchildren, hsingle⟩ := children_mergePolicy h hsingle source
    rw [List.foldl_cons, ih hsingle, hchildren, List.flatMap_cons, List.foldl_append]

/-- The elements of an identifier, one of them at most in the first policy. -/
theorem filter_children_foldl_mergePolicy (h : IsIdMerged name element) {base : Fields Value}
    (hsingle : ((Value.object base).get name).isList = false) {derived : List (Fields Value)}
    (honce : ∀ root ∈ derived, (Value.object root).namesOnce = true) {id : String}
    (hbase : ((children (.object base) [name, element]).filter fun v => id? v == some id).length
      ≤ 1) :
    (children (.object (derived.foldl mergePolicy base)) [name, element]).filter
        (fun v => id? v == some id) =
      (laid? mergeElement (((base :: derived).flatMap fun root =>
        children (.object root) [name, element]).filter fun v => id? v == some id)).toList := by
  rw [children_foldl_mergePolicy h hsingle, List.flatMap_cons]
  refine filter_foldl_lay _ (fun v hv k hk w _ => ?_) hbase
  obtain ⟨root, hroot, hv⟩ := List.mem_flatMap.mp hv
  exact solidAttribute?_mergeElement (namesOnce_of_mem_children _ (honce root hroot) hv) hk

/-! ### Names of providers -/

theorem text?_eq_bind (v : Value) :
    text? v = (asList v).head?.bind fun w => textIn (ownText w) := by
  cases v with
  | text s => by_cases hs : s = "" <;> simp [text?, first, asList, ownText, textIn, hs]
  | list items => cases items <;> rfl
  | _ => rfl

theorem providerName?_eq_bind (provider : Value) : providerName? provider =
    (named "DisplayName" provider).head?.bind fun v => textIn (ownText v) := by
  rw [providerName?, textOf?, text?_eq_bind, named_eq_asList]
  rfl

/-- The name of a provider that has no other. -/
def soleName? (provider : Value) : Option String :=
  (providerName? provider).filter fun n =>
    (named "DisplayName" provider).all fun v => textIn (ownText v) == some n

theorem soleName?_eq_some_iff {provider : Value} {n : String} :
    soleName? provider = some n ↔ named "DisplayName" provider ≠ [] ∧
      ∀ v ∈ named "DisplayName" provider, textIn (ownText v) = some n := by
  rw [soleName?, Option.filter_eq_some_iff, providerName?_eq_bind, List.all_eq_true]
  cases named "DisplayName" provider <;> simp +contextual

/-- A provider has no two names. -/
def HasOneName (provider : Value) : Prop := providerName? provider = soleName? provider

instance (provider : Value) : Decidable (HasOneName provider) :=
  inferInstanceAs (Decidable (providerName? provider = soleName? provider))

theorem hasOneName_of_soleName? {provider : Value} {n : String}
    (h : soleName? provider = some n) : HasOneName provider := by
  rw [HasOneName, h]
  exact (Option.filter_eq_some_iff.mp h).1

/-- A provider that has a name is an object. -/
theorem isObject_of_soleName? {provider : Value} {n : String}
    (h : soleName? provider = some n) : provider.isObject = true := by
  obtain ⟨hnamed, -⟩ := soleName?_eq_some_iff.mp h
  cases provider with
  | object fields => rfl
  | _ => exact absurd rfl hnamed

/-- The text of an element is that of what was laid onto it, if that has a text. -/
theorem textIn_ownText_mergeElement {v w : Value} {s : String} (honce : w.namesOnce = true)
    (hw : textIn (ownText w) = some s) : textIn (ownText (mergeElement v w)) = some s := by
  cases hwobject : w.isObject with
  | false => rwa [mergeElement_of_isObject_eq_false (Or.inr hwobject)]
  | true =>
  cases hvobject : v.isObject with
  | false => rwa [mergeElement_of_isObject_eq_false (Or.inl hvobject)]
  | true =>
    have hown : ∀ u : Value, u.isObject = true → ownText u = (u.get? Tree.textField).getD .null :=
      fun u hu => by cases u <;> first | rfl | cases hu
    rw [hown w hwobject] at hw
    rw [hown _ (isObject_mergeElement v hwobject), get?_mergeElement honce hvobject hwobject]
    cases hget : w.get? Tree.textField with
    | none => simp [hget, textIn] at hw
    | some text =>
      rw [hget] at hw
      have htext : Tree.isElement Tree.textField = false := by decide
      simpa [mergedField, htext] using hw

/-! ### Claims providers -/

/-- What a provider is after merging. -/
theorem mergeProvider_eq (current : Value) {derived : Value} (hd : derived.isObject = true) :
    ∃ fields, mergeElement current (withoutProfiles derived) = .object fields ∧
      mergeProvider current derived = .object (Fields.set fields "TechnicalProfiles"
        (.object [("TechnicalProfile",
          .list (mergeItems id? (profilesOf current) (profilesOf derived)))])) := by
  have hobject : (mergeElement current (withoutProfiles derived)).isObject = true := by
    refine isObject_mergeElement current ?_
    cases derived with
    | object fields => rfl
    | _ => cases hd
  cases hmerged : mergeElement current (withoutProfiles derived) with
  | object fields => exact ⟨fields, rfl, by rw [mergeProvider, hmerged]⟩
  | _ => rw [hmerged] at hobject; cases hobject

/-- **The profiles of a provider are laid onto those of the provider of its name.** -/
theorem profilesOf_mergeProvider (current : Value) {derived : Value}
    (hd : derived.isObject = true) :
    profilesOf (mergeProvider current derived) =
      (profilesOf derived).foldl (lay id? mergeElement) (profilesOf current) := by
  obtain ⟨fields, -, hmerged⟩ := mergeProvider_eq current hd
  rw [hmerged, profilesOf, children_section_eq, Fields.get?_set_self, mergeItems_eq_foldl]
  simp [asList, named, Fields.get?]

/-- **A provider that has one name keeps it when merged.** -/
theorem keepsKey_mergeProvider {derived : Value} (honce : derived.namesOnce = true) :
    KeepsKey soleName? mergeProvider derived := by
  intro n hn current hcurrent
  have hd := isObject_of_soleName? hn
  have hc := isObject_of_soleName? hcurrent
  obtain ⟨hderivedNe, hderivedAll⟩ := soleName?_eq_some_iff.mp hn
  obtain ⟨-, hcurrentAll⟩ := soleName?_eq_some_iff.mp hcurrent
  obtain ⟨fields, hfields, hmerged⟩ := mergeProvider_eq current hd
  -- neither leaving the profiles out nor putting the merged ones in touches the names
  obtain ⟨hd', honce', hwithout⟩ : (withoutProfiles derived).isObject = true ∧
      (withoutProfiles derived).namesOnce = true ∧
        named "DisplayName" (withoutProfiles derived) = named "DisplayName" derived := by
    cases derived with
    | object fields =>
      refine ⟨rfl, Fields.namesOnce_erase honce _, ?_⟩
      rw [withoutProfiles, named, named, Fields.get?_erase_of_ne fields (by decide)]
    | _ => cases hd
  have hnames : named "DisplayName" (mergeProvider current derived) =
      mergedItems (named "DisplayName" current) (named "DisplayName" derived) := by
    rw [hmerged, ← hwithout, ← named_mergeElement honce' hc hd' (by decide), hfields, named, named,
      Fields.get?_set_of_ne _ _ (by decide)]
  rw [soleName?_eq_some_iff, hnames]
  exact ⟨mergedItems_ne_nil _ hderivedNe,
    forall_mem_mergedItems hcurrentAll hderivedAll fun w hw v _ =>
      textIn_ownText_mergeElement (namesOnce_of_mem_named honce hw) (hderivedAll w hw)⟩

/-- Providers matched by their names are laid onto each other, if each has one name. -/
theorem mergeNamed_eq_foldl (existing : List Value) {incoming : List Value}
    (honce : ∀ p ∈ incoming, p.namesOnce = true)
    (hnames : ∀ p ∈ incoming, providerName? p = soleName? p) :
    mergeNamed (existing.map fun p => (soleName? p, p)) incoming =
      (incoming.foldl (lay soleName? mergeProvider) existing).map fun p => (soleName? p, p) := by
  unfold mergeNamed
  induction incoming generalizing existing with
  | nil => rfl
  | cons derived incoming ih =>
    rw [List.forall_mem_cons] at honce hnames
    rw [List.foldl_cons, List.foldl_cons, ← ih _ honce.2 hnames.2]
    congr 1
    rw [hnames.1]
    cases hname : soleName? derived with
    | none => simp [lay, hname]
    | some n =>
      have hreplace : replaceLast (fun p => p.1 == some n)
          (fun p => (p.1, mergeProvider p.2 derived)) (existing.map fun p => (soleName? p, p)) =
            (replaceLast (fun p => soleName? p == some n) (fun p => mergeProvider p derived)
              existing).map (List.map fun p => (soleName? p, p)) := by
        refine replaceLast_map (fun p hp => ?_) existing
        have hp : soleName? p = some n := by simpa using hp
        rw [hp, keepsKey_mergeProvider honce.1 n hname p hp]
      -- the name that was noted for a provider is still its name
      simp only [lay, hname, hreplace]
      cases replaceLast (fun p => soleName? p == some n) (fun p => mergeProvider p derived)
        existing <;> simp [hname]

theorem get?_mergePolicy_claimsProviders (target source : Fields Value) :
    Fields.get? (mergePolicy target source) "ClaimsProviders" =
      Fields.get? (mergeProviders target source) "ClaimsProviders" := by
  have hlocalized : ∀ other : Fields Value,
      other.get? "ClaimsProviders" = target.get? "ClaimsProviders" →
        Fields.get? (mergeProviders other source) "ClaimsProviders" =
          Fields.get? (mergeProviders target source) "ClaimsProviders" := by
    intro other hother
    unfold mergeProviders
    split
    · exact hother
    · rw [get?_changeAt_self, get?_changeAt_self, hother]
  simp only [mergePolicy]
  rw [get?_addNewSections_of_mem (by decide), get?_replaceRelyingParty_of_ne (by decide)]
  apply hlocalized
  rw [get?_mergeLocalization_of_ne (by decide)]
  exact get?_foldl_mergeSection_of_ne (by decide) (by decide)

/-- Providers laid onto each other have one name each, if they had. -/
theorem hasOneName_foldl_lay {existing incoming : List Value}
    (honce : ∀ p ∈ incoming, p.namesOnce = true) (hexisting : ∀ p ∈ existing, HasOneName p)
    (hincoming : ∀ p ∈ incoming, HasOneName p) :
    ∀ p ∈ incoming.foldl (lay soleName? mergeProvider) existing, HasOneName p :=
  forall_mem_foldl_lay hexisting hincoming fun p hp n hn q _ hq =>
    hasOneName_of_soleName? (keepsKey_mergeProvider (honce p hp) n hn q hq)

theorem namesOnce_of_mem_providerNodes {root provider : Value} (honce : root.namesOnce = true)
    (h : provider ∈ providerNodes root) : provider.namesOnce = true :=
  namesOnce_of_mem_children _ honce h

/-- **The claims providers of a policy are laid onto those that were there.** -/
theorem providerNodes_mergePolicy
    (hsingle : ((Value.object target).get "ClaimsProviders").isList = false)
    (honce : (Value.object source).namesOnce = true)
    (htarget : ∀ p ∈ providerNodes (.object target), HasOneName p)
    (hsource : ∀ p ∈ providerNodes (.object source), HasOneName p) :
    providerNodes (.object (mergePolicy target source)) =
        (providerNodes (.object source)).foldl (lay soleName? mergeProvider)
          (providerNodes (.object target)) ∧
      ((Value.object (mergePolicy target source)).get "ClaimsProviders").isList = false := by
  have hget := get?_mergePolicy_claimsProviders target source
  have hitems : providerNodes (.object target) =
      itemsAt (containerFields (target.get? "ClaimsProviders")) "ClaimsProvider" :=
    children_section_eq_itemsAt hsingle
  unfold mergeProviders at hget
  split at hget
  · next hnone =>
    have hnone : providerNodes (.object source) = [] := hnone
    rw [hnone, providerNodes, children_section_congr hget, get_eq_of_get?_eq hget]
    exact ⟨rfl, hsingle⟩
  · rw [get?_changeAt_self] at hget
    obtain ⟨hchildren, hlist⟩ := children_section_of_get? hget
    refine ⟨?_, hlist⟩
    have hnamed := mergeNamed_eq_foldl (providerNodes (.object target))
      (fun p hp => namesOnce_of_mem_providerNodes honce hp) hsource
    have hexisting : ((providerNodes (.object target)).map fun p => (soleName? p, p)) =
        (itemsAt (containerFields (target.get? "ClaimsProviders")) "ClaimsProvider").map
          fun p => (providerName? p, p) := by
      rw [← hitems]
      exact List.map_congr_left fun p hp => by rw [htarget p hp]
    have hincoming : ∀ ps : List (Option String × Value),
        mergeNamed ps (providerNodes (.object source)) = mergeNamed ps
          (children (.object source) ["ClaimsProviders", "ClaimsProvider"]) := fun _ => rfl
    rw [hincoming, hexisting] at hnamed
    rw [providerNodes, hchildren, hnamed, List.map_map]
    exact List.map_id _

/-- **The claims providers of policies laid onto each other are those of all of them.** -/
theorem providerNodes_foldl_mergePolicy {base : Fields Value}
    (hsingle : ((Value.object base).get "ClaimsProviders").isList = false)
    {derived : List (Fields Value)}
    (honce : ∀ root ∈ derived, (Value.object root).namesOnce = true)
    (hbase : ∀ p ∈ providerNodes (.object base), HasOneName p)
    (hderived : ∀ root ∈ derived, ∀ p ∈ providerNodes (.object root), HasOneName p) :
    providerNodes (.object (derived.foldl mergePolicy base)) =
      (derived.flatMap fun root => providerNodes (.object root)).foldl
        (lay soleName? mergeProvider) (providerNodes (.object base)) := by
  induction derived generalizing base with
  | nil => rfl
  | cons source derived ih =>
    rw [List.forall_mem_cons] at honce hderived
    obtain ⟨hproviders, hsingle⟩ :=
      providerNodes_mergePolicy hsingle honce.1 hbase hderived.1
    have hmerged : ∀ p ∈ providerNodes (.object (mergePolicy base source)), HasOneName p := by
      rw [hproviders]
      exact hasOneName_foldl_lay (fun p hp => namesOnce_of_mem_providerNodes honce.1 hp) hbase
        hderived.1
    rw [List.foldl_cons, ih hsingle honce.2 hmerged hderived.2, hproviders, List.flatMap_cons,
      List.foldl_append]

/-! ### Technical profiles -/

section Profiles

variable {n id : String} {providers : List Value}

theorem keepsKey_id? {v : Value} (honce : v.namesOnce = true) : KeepsKey id? mergeElement v :=
  fun _ hk _ _ => solidAttribute?_mergeElement honce hk

/-- The profiles of an identifier in a provider laid onto another. -/
theorem filter_profilesOf_mergeProvider (current : Value) {derived : Value}
    (honce : derived.namesOnce = true) (hd : derived.isObject = true)
    (hcurrent : ((profilesOf current).filter fun v => id? v == some id).length ≤ 1) :
    (profilesOf (mergeProvider current derived)).filter (fun v => id? v == some id) =
      (laid? mergeElement ((profilesOf current ++ profilesOf derived).filter
        fun v => id? v == some id)).toList := by
  rw [profilesOf_mergeProvider current hd]
  have hprofiles : ∀ v ∈ profilesOf derived, KeepsKey id? mergeElement v :=
    fun v hv => keepsKey_id? (namesOnce_of_mem_children _ honce hv)
  exact filter_foldl_lay _ hprofiles hcurrent

/-- The profiles of an identifier, where all providers but those of one name have none. -/
theorem filter_flatMap_profilesOf
    (h : ∀ p ∈ providers, soleName? p = some n ∨
      (profilesOf p).filter (fun v => id? v == some id) = []) :
    (providers.flatMap profilesOf).filter (fun v => id? v == some id) =
      ((providers.filter fun p => soleName? p == some n).flatMap profilesOf).filter
        fun v => id? v == some id := by
  induction providers with
  | nil => rfl
  | cons p providers ih =>
    rw [List.forall_mem_cons] at h
    rw [List.flatMap_cons, List.filter_append, ih h.2]
    by_cases hp : soleName? p = some n
    · simp [hp]
    · simp [hp, h.1.resolve_left hp]

/-- The profiles of an identifier in providers of one name, laid onto each other. -/
theorem filter_profilesOf_laid? (honce : ∀ p ∈ providers, p.namesOnce = true)
    (hobject : ∀ p ∈ providers, p.isObject = true)
    (hsingle : ∀ p ∈ providers,
      ((profilesOf p).filter fun v => id? v == some id).length ≤ 1) {provider : Value}
    (h : laid? mergeProvider providers = some provider) :
    (profilesOf provider).filter (fun v => id? v == some id) =
      (laid? mergeElement ((providers.flatMap profilesOf).filter
        fun v => id? v == some id)).toList := by
  refine laid?_induction
    (Q := fun p => p.namesOnce = true ∧ p.isObject = true ∧
      ((profilesOf p).filter fun v => id? v == some id).length ≤ 1)
    (P := fun ps p => (profilesOf p).filter (fun v => id? v == some id) =
      (laid? mergeElement ((ps.flatMap profilesOf).filter fun v => id? v == some id)).toList)
    ?_ ?_ (fun p hp => ⟨honce p hp, hobject p hp, hsingle p hp⟩) h
  · rintro p ⟨-, -, hp⟩
    rw [List.flatMap_singleton, toList_laid?_of_length_le_one mergeElement hp]
  · rintro ps below p hbelow ⟨honce, hobject, -⟩
    rw [filter_profilesOf_mergeProvider below honce hobject
      (by rw [hbelow]; exact Option.length_toList_le), List.filter_append, hbelow,
      laid?_toList_append, List.flatMap_append, List.filter_append, List.flatMap_singleton]

/-- **The profiles of an identifier in the providers of the consolidated policy**, if all
policies define the profile under providers of one name: their definitions, laid onto each
other. -/
theorem filter_profiles_foldl_mergePolicy {base : Fields Value}
    (hsection : ((Value.object base).get "ClaimsProviders").isList = false)
    {derived : List (Fields Value)}
    (honce : ∀ root ∈ base :: derived, (Value.object root).namesOnce = true)
    (hnames : ∀ root ∈ base :: derived, ∀ p ∈ providerNodes (.object root), HasOneName p)
    (hname : ((providerNodes (.object base)).filter fun p => providerName? p == some n).length ≤ 1)
    (hunder : ∀ root ∈ base :: derived, ∀ p ∈ providerNodes (.object root), ∀ v ∈ profilesOf p,
      id? v = some id → providerName? p = some n)
    (hsingle : ∀ root ∈ base :: derived, ∀ p ∈ providerNodes (.object root),
      ((profilesOf p).filter fun v => id? v == some id).length ≤ 1) :
    ((providerNodes (.object (derived.foldl mergePolicy base))).flatMap profilesOf).filter
        (fun v => id? v == some id) =
      (laid? mergeElement ((((base :: derived).flatMap fun root =>
        providerNodes (.object root)).flatMap profilesOf).filter
          fun v => id? v == some id)).toList := by
  -- what is known of the providers of the first policy, and of those of all others
  have hof : ∀ root ∈ base :: derived, ∀ p ∈ providerNodes (.object root),
      p.namesOnce = true ∧ HasOneName p ∧
        (soleName? p = some n ∨ (profilesOf p).filter (fun v => id? v == some id) = []) ∧
          ((profilesOf p).filter fun v => id? v == some id).length ≤ 1 := by
    intro root hroot p hp
    refine ⟨namesOnce_of_mem_providerNodes (honce root hroot) hp, hnames root hroot p hp, ?_,
      hsingle root hroot p hp⟩
    rw [← hnames root hroot p hp]
    by_cases hn : providerName? p = some n
    · exact Or.inl hn
    · exact Or.inr (List.filter_eq_nil_iff.mpr fun v hv hid =>
        hn (hunder root hroot p hp v hv (by simpa using hid)))
  rw [List.forall_mem_cons] at hof honce hnames
  obtain ⟨hbase, hroots⟩ := hof
  have hderived := fun p (hp : p ∈ derived.flatMap fun root => providerNodes (.object root)) =>
    (List.mem_flatMap.mp hp).elim fun root h => hroots root h.1 p h.2
  have hkeeps : ∀ p ∈ derived.flatMap fun root => providerNodes (.object root),
      KeepsKey soleName? mergeProvider p := fun p hp => keepsKey_mergeProvider (hderived p hp).1
  have hproviders := providerNodes_foldl_mergePolicy hsection honce.2 hnames.1 hnames.2
  -- providers of other names have no such profile, after merging either
  have helsewhere : ∀ p ∈ providerNodes (.object (derived.foldl mergePolicy base)),
      soleName? p = some n ∨ (profilesOf p).filter (fun v => id? v == some id) = [] := by
    rw [hproviders]
    refine forall_mem_foldl_lay (fun p hp => (hbase p hp).2.2.1)
      (fun p hp => (hderived p hp).2.2.1) fun p hp k hk q hq hqk => ?_
    by_cases hn : k = n
    · exact Or.inl (hn ▸ hkeeps p hp k hk q hqk)
    · have hother : ∀ r, soleName? r = some k → soleName? r ≠ some n := fun r hr h =>
        hn (Option.some.inj (hr.symm.trans h))
      have hpnone := (hderived p hp).2.2.1.resolve_left (hother p hk)
      have hqnone := hq.resolve_left (hother q hqk)
      right
      rw [filter_profilesOf_mergeProvider q (hderived p hp).1 (isObject_of_soleName? hk)
        (by simp [hqnone]), List.filter_append, hqnone, hpnone]
      rfl
  have hall := List.forall_mem_append.mpr ⟨hbase, hderived⟩
  have hsole : ((providerNodes (.object base)).filter fun p => soleName? p == some n).length
      ≤ 1 := by
    rwa [List.filter_congr fun p hp => by rw [← hnames.1 p hp]]
  have hnamed := filter_foldl_lay (k := n) (providerNodes (.object base)) hkeeps hsole
  rw [← hproviders] at hnamed
  rw [filter_flatMap_profilesOf helsewhere, hnamed, List.flatMap_cons,
    filter_flatMap_profilesOf fun p hp => (hall p hp).2.2.1]
  cases hlaid : laid? mergeProvider ((providerNodes (.object base) ++
      derived.flatMap fun root => providerNodes (.object root)).filter
        fun p => soleName? p == some n) with
  | none => simp [laid?_eq_none_iff.mp hlaid]
  | some provider =>
    rw [Option.toList_some, List.flatMap_singleton]
    exact filter_profilesOf_laid?
      (fun p hp => (hall p (List.mem_of_mem_filter hp)).1)
      (fun p hp => isObject_of_soleName? (by simpa using List.of_mem_filter hp))
      (fun p hp => (hall p (List.mem_of_mem_filter hp)).2.2.2) hlaid

end Profiles

/-! ### The relying party -/

theorem get?_mergePolicy_relyingParty (target source : Fields Value) :
    Fields.get? (mergePolicy target source) "RelyingParty" =
      (source.get? "RelyingParty").or (target.get? "RelyingParty") := by
  simp only [mergePolicy]
  rw [get?_addNewSections_of_mem (by decide)]
  unfold replaceRelyingParty
  split
  · next party hparty => rw [Fields.get?_set_self, hparty, Option.some_or]
  · next hnone =>
    rw [hnone, Option.none_or, get?_mergeProviders_of_ne (by decide),
      get?_mergeLocalization_of_ne (by decide)]
    exact get?_foldl_mergeSection_of_ne (by decide) (by decide)

/-- The relying party is that of one of the policies. -/
theorem exists_relyingParty_foldl_mergePolicy (base : Fields Value)
    (derived : List (Fields Value)) :
    ∃ root ∈ base :: derived, Fields.get? (derived.foldl mergePolicy base) "RelyingParty" =
      root.get? "RelyingParty" := by
  induction derived using List.reverseRecOn with
  | nil => exact ⟨base, List.mem_singleton_self _, rfl⟩
  | append_singleton derived last ih =>
    rw [List.foldl_append, List.foldl_cons, List.foldl_nil, get?_mergePolicy_relyingParty]
    cases hlast : last.get? "RelyingParty" with
    | some party => exact ⟨last, by simp, by rw [hlast, Option.some_or]⟩
    | none =>
      obtain ⟨root, hroot, hget⟩ := ih
      exact ⟨root, by simp only [List.mem_cons, List.mem_append] at hroot ⊢; tauto, hget⟩

/-! ### The consolidated policy -/

theorem get?_takeLeaf_of_not_mem {merged leaf : Fields Value} (h : name ∉ leafAttributes) :
    Fields.get? (takeLeaf merged leaf) name = merged.get? name := by
  unfold takeLeaf
  generalize leafAttributes = names at h ⊢
  induction names generalizing merged with
  | nil => rfl
  | cons other names ih =>
    rw [List.mem_cons, not_or] at h
    rw [List.foldl_cons, ih h.2]
    split
    · exact Fields.get?_set_of_ne _ _ h.1
    · rfl

/-- The fields of a policy's root. -/
def rootOf (tree : Value) : Fields Value := containerFields (tree.get? rootName)

theorem mapM_policyRoot? {trees : List Value} (h : ∀ tree ∈ trees,
    policyRoot? tree = .ok (rootOf tree)) : trees.mapM policyRoot? = .ok (trees.map rootOf) := by
  induction trees with
  | nil => rfl
  | cons tree trees ih =>
    rw [List.forall_mem_cons] at h
    rw [List.mapM_cons, h.1, ih h.2]
    rfl

/-- **The consolidated policy has the sections of the policies merged**, but for the reference to
the base. -/
theorem consolidate_eq_ok {base : Value} {derived : List Value}
    (h : ∀ tree ∈ base :: derived, policyRoot? tree = .ok (rootOf tree)) :
    ∃ root, consolidate (base :: derived) = .ok (.object [(rootName, .object root)]) ∧
      ∀ name ∈ handledSections, name ≠ "BasePolicy" →
        Fields.get? root name =
          Fields.get? ((derived.map rootOf).foldl mergePolicy (rootOf base)) name := by
  rw [List.forall_mem_cons] at h
  have hrun : consolidate (base :: derived) = .ok (.object [(rootName, .object
      ((takeLeaf ((derived.map rootOf).foldl mergePolicy (rootOf base))
        ((derived.map rootOf).getLastD (rootOf base))).erase "BasePolicy"))]) := by
    simp only [consolidate, h.1, mapM_policyRoot? h.2]
    rfl
  refine ⟨_, hrun, fun name hsection hbase => ?_⟩
  have hattribute : ∀ other ∈ handledSections, other ∉ leafAttributes := by decide
  rw [Fields.get?_erase_of_ne _ hbase, get?_takeLeaf_of_not_mem (hattribute name hsection)]

end Policy
end TrustFramework
