import TrustFramework.Proofs.Consolidation
import TrustFramework.Proofs.Policy.Writing

/-!
# What the consolidated policy defines

The elements of some sections have identifiers: types of claims, transformations, journeys, and
the profiles of providers.  A policy defines an identifier in a section if it has an element of
it there.  Merging keeps every identifier of the section it writes into and adds those of the
policy it merges.  So the consolidated policy defines what the policies define, but for what
stood in containers of the first policy that were replaced by an empty one.

## Main definitions

* `DefinitionSection`, `definitionSections` — the sections whose elements have identifiers.
* `Defines` — a policy has an element of an identifier in a section.
* `IsReplaced` — some derived policy writes into a container that the base has several times, on
  the way to a section.

## Main results

* `identifies_written` — **what is found below a container after some writes.**
* `defines_foldl_mergePolicy_iff` — **what merged policies define.**
* `consolidate_defines_all_iff` — **when the consolidated policy defines all that the policies
  define.**
-/

namespace TrustFramework
namespace Policy

open Policy.Node

/-! ### Identifiers among elements -/

/-- Some element has an identifier. -/
def Identifies (items : List Value) (id : String) : Prop := ∃ v ∈ items, id? v = some id

theorem identifies_append {items more : List Value} {id : String} :
    Identifies (items ++ more) id ↔ Identifies items id ∨ Identifies more id := by
  simp only [Identifies, List.mem_append, or_and_right, exists_or]

theorem identifies_cons {v : Value} {items : List Value} {id : String} :
    Identifies (v :: items) id ↔ id? v = some id ∨ Identifies items id := by
  simp [Identifies]

@[simp] theorem not_identifies_nil {id : String} : ¬ Identifies [] id := by simp [Identifies]

/-- Laying an element onto others adds its identifier and loses none. -/
theorem identifies_lay {items : List Value} {v : Value} (hv : KeepsKey id? mergeElement v)
    {id : String} : Identifies (lay id? mergeElement items v) id ↔
      Identifies items id ∨ id? v = some id := by
  rcases lay_cases id? mergeElement items v with ⟨-, hlay⟩ |
    ⟨k, before, w, after, hk, rfl, hw, -, hlay⟩
  · simp [hlay, identifies_append, identifies_cons]
  · -- the merged element has the identifier that both had
    have hmerged : id? (mergeElement w v) = some k := hv k hk w hw
    simp only [hlay, identifies_append, identifies_cons, hmerged, hw, hk]
    tauto

theorem identifies_mergeItems {items incoming : List Value}
    (honce : ∀ v ∈ incoming, v.namesOnce = true) {id : String} :
    Identifies (mergeItems id? items incoming) id ↔
      Identifies items id ∨ Identifies incoming id := by
  rw [mergeItems_eq_foldl]
  induction incoming generalizing items with
  | nil => simp
  | cons v incoming ih =>
    rw [List.forall_mem_cons] at honce
    rw [List.foldl_cons, ih honce.2, identifies_lay (keepsKey_id? honce.1), identifies_cons,
      or_assoc]

/-! ### Providers -/

/-- The profiles of providers that others were laid onto by their names are those of both. -/
theorem identifies_mergeNamed {existing : List (Option String × Value)} {incoming : List Value}
    (honce : ∀ p ∈ incoming, p.namesOnce = true) {id : String} :
    Identifies ((mergeNamed existing incoming).flatMap fun p => profilesOf p.2) id ↔
      Identifies (existing.flatMap fun p => profilesOf p.2) id ∨
        Identifies (incoming.flatMap profilesOf) id := by
  unfold mergeNamed
  induction incoming generalizing existing with
  | nil => simp
  | cons derived incoming ih =>
    rw [List.forall_mem_cons] at honce
    rw [List.foldl_cons, ih honce.2, List.flatMap_cons, identifies_append, ← or_assoc]
    refine or_congr_left ?_
    cases hname : providerName? derived with
    | none => simp [identifies_append]
    | some name =>
      dsimp only
      cases hreplace : replaceLast (fun p => p.1 == some name)
          (fun p => (p.1, mergeProvider p.2 derived)) existing with
      | none => simp [identifies_append]
      | some providers =>
        -- the provider of this name has the profiles of both
        obtain ⟨before, p, after, rfl, -, -, rfl⟩ := replaceLast_eq_some hreplace
        have hd : derived.isObject = true := by
          cases derived with
          | object fields => rfl
          | _ => cases hname
        have hprofiles : Identifies (profilesOf (mergeProvider p.2 derived)) id ↔
            Identifies (profilesOf p.2) id ∨ Identifies (profilesOf derived) id := by
          have hderived : ∀ v ∈ profilesOf derived, v.namesOnce = true :=
            fun v hv => namesOnce_of_mem_children _ honce.1 hv
          rw [profilesOf_mergeProvider p.2 hd, ← mergeItems_eq_foldl,
            identifies_mergeItems hderived]
        simp only [Option.getD_some, List.flatMap_append, List.flatMap_cons, identifies_append,
          hprofiles]
        tauto

/-! ### Sections -/

/-- A section by its container, and the path from there to its elements. -/
structure DefinitionSection where
  container : List String
  elements : List String

/-- The sections whose elements have identifiers. -/
def definitionSections : List DefinitionSection :=
  ⟨["ClaimsProviders"], ["ClaimsProvider", "TechnicalProfiles", "TechnicalProfile"]⟩ ::
    idMergedSections.map fun part => ⟨part.1, [part.2]⟩

/-- A policy has an element of an identifier in a section. -/
def Defines (root : Fields Value) (s : DefinitionSection) (id : String) : Prop :=
  Identifies (children (.object root) (s.container ++ s.elements)) id

instance (root : Fields Value) (s : DefinitionSection) (id : String) :
    Decidable (Defines root s id) :=
  inferInstanceAs (Decidable (∃ v ∈ _, _))

/-- Some derived policy writes into a container in such a way that an empty one is put in place
of several of the base, on the way to a section. -/
def IsReplaced (base : Fields Value) (derived : List (Fields Value)) (s : DefinitionSection) :
    Prop :=
  ∃ source ∈ derived, ∃ w ∈ writesOf source, replaces base w.path s.container = true

instance (base : Fields Value) (derived : List (Fields Value)) (s : DefinitionSection) :
    Decidable (IsReplaced base derived s) :=
  inferInstanceAs (Decidable (∃ source ∈ derived, ∃ w ∈ writesOf source, _))

/-- A write adds elements of identifiers below a container: it is into the container and changes
it so, or it is into one apart from it and adds nothing. -/
def Adds (s : DefinitionSection) (w : Write) (added : String → Prop) : Prop :=
  (w.path = s.container ∧ ∀ fields id, Identifies (children (.object (w.change fields)) s.elements)
      id ↔ Identifies (children (.object fields) s.elements) id ∨ added id) ∨
    (Apart w.path s.container ∧ ∀ id, ¬ added id)

/-- **What is found below a container after some writes**: what they add, and what was there
unless one of them replaced it. -/
theorem identifies_written {s : DefinitionSection} (hs : s.elements ≠ [])
    {added : Write → String → Prop} {writes : List Write}
    (hwrites : ∀ w ∈ writes, Adds s w (added w)) (base : Fields Value) (id : String) :
    Defines (written base writes) s id ↔
      (Defines base s id ∧ ∀ w ∈ writes, replaces base w.path s.container = false) ∨
        ∃ w ∈ writes, added w id := by
  induction writes generalizing base with
  | nil => simp [written]
  | cons w writes ih =>
    rw [List.forall_mem_cons] at hwrites
    have hreplaces : ∀ next, replaces (changeAt base w.path w.change) next s.container =
        (replaces base next s.container && !replaces base w.path s.container) :=
      replaces_changeAt (fun hprefix => hwrites.1.elim And.left
        fun happart => absurd hprefix happart.1.1) base w.change
    have hrest := ih hwrites.2 (changeAt base w.path w.change)
    rw [written, List.foldl_cons, ← written, hrest, List.forall_mem_cons]
    simp only [hreplaces, List.exists_mem_cons_iff]
    rcases hwrites.1 with ⟨hpath, hchange⟩ | ⟨happart, hnone⟩
    · -- what is added to the container stays, for nothing replaces it any more
      have hself : ∀ next, replaces base next s.container = true →
          replaces base s.container s.container = true := fun _ => replaces_self_of_replaces
      have hdefines : Defines (changeAt base w.path w.change) s id ↔
          (Defines base s id ∧ replaces base s.container s.container = false) ∨ added w id := by
        rw [Defines, hpath, children_changeAt_self, hchange, children_containerAt _ _ hs]
        cases replaces base s.container s.container <;> simp [Defines]
      rw [hdefines, hpath]
      cases hown : replaces base s.container s.container with
      | false =>
        have hnone : ∀ next, replaces base next s.container = false := fun next => by
          cases h : replaces base next s.container with
          | false => rfl
          | true => rw [hself next h] at hown; cases hown
        simp [hnone, or_assoc]
      | true => simp
    · have hdefines : Defines (changeAt base w.path w.change) s id ↔
          Defines base s id ∧ replaces base w.path s.container = false := by
        rw [Defines, children_changeAt_of_apart happart]
        cases replaces base w.path s.container <;> simp [Defines]
      rw [hdefines]
      cases replaces base w.path s.container <;> simp [hnone]

/-! ### What merging a policy adds -/

section Merging

variable {source : Fields Value} {s : DefinitionSection} {w : Write}

/-- A write is into the container of a section, and adds to it what a policy defines there. -/
def WritesSection (source : Fields Value) (s : DefinitionSection) (w : Write) : Prop :=
  w.path = s.container ∧ ∀ fields id,
    Identifies (children (.object (w.change fields)) s.elements) id ↔
      Identifies (children (.object fields) s.elements) id ∨ Defines source s id

theorem children_singleton (fields : Fields Value) (name : String) :
    children (.object fields) [name] = itemsAt fields name := by
  simp [children, named, itemsAt]

theorem writesSection_of_sectionWrite? (honce : (Value.object source).namesOnce = true)
    {part : List String × String} (h : sectionWrite? source part = some w) :
    WritesSection source ⟨part.1, [part.2]⟩ w := by
  unfold sectionWrite? at h
  split at h
  · cases h
  · cases h
    refine ⟨rfl, fun fields id => ?_⟩
    have hincoming : ∀ v ∈ children (.object source) (part.1 ++ [part.2]), v.namesOnce = true :=
      fun v hv => namesOnce_of_mem_children _ honce hv
    rw [children_singleton, children_singleton, itemsAt, Fields.get?_set_self, Option.getD_some,
      asList, identifies_mergeItems hincoming]
    rfl

theorem not_defines_of_sectionWrite? {part : List String × String} {id : String}
    (h : sectionWrite? source part = none) : ¬ Defines source ⟨part.1, [part.2]⟩ id := by
  unfold sectionWrite? at h
  split at h
  · next hnil => simp [Defines, hnil]
  · cases h

/-- The section of the profiles of claims providers. -/
def profileSection : DefinitionSection :=
  ⟨["ClaimsProviders"], ["ClaimsProvider", "TechnicalProfiles", "TechnicalProfile"]⟩

theorem children_providers (fields : Fields Value) :
    children (.object fields) profileSection.elements =
      (itemsAt fields "ClaimsProvider").flatMap profilesOf := by
  rw [profileSection, children_cons]
  rfl

theorem children_profileSection (root : Fields Value) :
    children (.object root) (profileSection.container ++ profileSection.elements) =
      (children (.object root) ["ClaimsProviders", "ClaimsProvider"]).flatMap profilesOf := by
  rw [profileSection, List.cons_append, List.nil_append, children_cons, children_cons,
    List.flatMap_assoc]
  refine List.flatMap_congr fun v _ => ?_
  rw [children_cons, children_cons, List.flatMap_assoc]
  refine List.flatMap_congr fun p _ => ?_
  simp [children, profilesOf]

theorem writesSection_of_providersWrite? (honce : (Value.object source).namesOnce = true)
    (h : providersWrite? source = some w) : WritesSection source profileSection w := by
  unfold providersWrite? at h
  split at h
  · cases h
  · cases h
    refine ⟨rfl, fun fields id => ?_⟩
    have hincoming : ∀ v ∈ children (.object source) ["ClaimsProviders", "ClaimsProvider"],
        v.namesOnce = true := fun v hv => namesOnce_of_mem_children _ honce hv
    let existing := (itemsAt fields "ClaimsProvider").map fun p => (providerName? p, p)
    have hmerged : Identifies ((mergeNamed existing (children (.object source)
          ["ClaimsProviders", "ClaimsProvider"])).flatMap fun p => profilesOf p.2) id ↔ _ :=
      identifies_mergeNamed hincoming
    rw [List.flatMap_map] at hmerged
    rw [children_providers, children_providers, itemsAt, Fields.get?_set_self, Option.getD_some,
      asList, List.flatMap_map, hmerged, Defines, children_profileSection]

theorem not_defines_of_providersWrite? {id : String} (h : providersWrite? source = none) :
    ¬ Defines source profileSection id := by
  unfold providersWrite? at h
  split at h
  · next hnil => simp [Defines, children_profileSection, hnil]
  · cases h

/-- No container that is written into is around another one. -/
theorem apart_containers :
    (∀ part ∈ idMergedSections, Apart ["BuildingBlocks", "Localization"] part.1 ∧
      Apart ["ClaimsProviders"] part.1 ∧ Apart part.1 ["ClaimsProviders"]) ∧
    ∀ part ∈ idMergedSections, ∀ other ∈ idMergedSections,
      other = part ∨ Apart other.1 part.1 := by
  decide

theorem path_of_localizationWrite? (h : localizationWrite? source = some w) :
    w.path = ["BuildingBlocks", "Localization"] := by
  unfold localizationWrite? at h
  split at h <;> cases h
  rfl

/-- What merging a policy writes into a section is what the policy defines there. -/
theorem writesOf_cases (hs : s ∈ definitionSections)
    (honce : (Value.object source).namesOnce = true) :
    (∀ w ∈ writesOf source, WritesSection source s w ∨ Apart w.path s.container) ∧
      ∀ id, Defines source s id → ∃ w ∈ writesOf source, WritesSection source s w := by
  obtain ⟨hothers, hparts⟩ := apart_containers
  simp only [writesOf, List.mem_append, List.mem_filterMap, Option.mem_toList]
  rcases List.mem_cons.mp hs with rfl | hs
  · refine ⟨?_, fun id hid => ?_⟩
    · rintro w ((⟨part, hpart, hw⟩ | hw) | hw)
      · rw [(writesSection_of_sectionWrite? honce hw).1]
        exact Or.inr (hothers part hpart).2.2
      · rw [path_of_localizationWrite? hw]
        exact Or.inr (by decide)
      · exact Or.inl (writesSection_of_providersWrite? honce hw)
    · cases hw : providersWrite? source with
      | none => exact absurd hid (not_defines_of_providersWrite? hw)
      | some w => exact ⟨w, Or.inr rfl, writesSection_of_providersWrite? honce hw⟩
  · obtain ⟨part, hpart, rfl⟩ := List.mem_map.mp hs
    refine ⟨?_, fun id hid => ?_⟩
    · rintro w ((⟨other, hother, hw⟩ | hw) | hw)
      · rcases hparts part hpart other hother with rfl | happart
        · exact Or.inl (writesSection_of_sectionWrite? honce hw)
        · rw [(writesSection_of_sectionWrite? honce hw).1]
          exact Or.inr happart
      · rw [path_of_localizationWrite? hw]
        exact Or.inr (hothers part hpart).1
      · rw [(writesSection_of_providersWrite? honce hw).1]
        exact Or.inr (hothers part hpart).2.1
    · cases hw : sectionWrite? source part with
      | none => exact absurd hid (not_defines_of_sectionWrite? hw)
      | some w =>
        exact ⟨w, Or.inl (Or.inl ⟨part, hpart, hw⟩), writesSection_of_sectionWrite? honce hw⟩

end Merging

/-! ### What merged policies define -/

/-- Every section stands in one that is merged. -/
theorem handled_of_mem_definitionSections {s : DefinitionSection} (hs : s ∈ definitionSections) :
    s.elements ≠ [] ∧ ∃ name rest, s.container = name :: rest ∧ name ∈ handledSections ∧
      name ≠ "RelyingParty" ∧ name ≠ "BasePolicy" := by
  have hall : ∀ s ∈ definitionSections, s.elements ≠ [] ∧ s.container ≠ [] ∧
      s.container.headD "" ∈ handledSections ∧ s.container.headD "" ≠ "RelyingParty" ∧
        s.container.headD "" ≠ "BasePolicy" := by decide
  obtain ⟨helements, hcontainer, hhead⟩ := hall s hs
  refine ⟨helements, ?_⟩
  match hpath : s.container, hcontainer with
  | name :: rest, _ =>
    rw [hpath] at hhead
    exact ⟨name, rest, rfl, hhead⟩

/-- What a policy defines in a section is a matter of the field of its root it starts with. -/
theorem defines_congr {root other : Fields Value} {s : DefinitionSection} {name : String}
    {rest : List String} (hpath : s.container = name :: rest)
    (h : root.get? name = other.get? name) {id : String} :
    Defines root s id ↔ Defines other s id := by
  rw [Defines, Defines, hpath, List.cons_append, children_cons, children_cons, named, named, h]

/-- **What merged policies define**: what the derived ones define, and what the base does in
containers that were not replaced. -/
theorem defines_foldl_mergePolicy_iff {s : DefinitionSection} (hs : s ∈ definitionSections)
    (base : Fields Value) {derived : List (Fields Value)}
    (honce : ∀ source ∈ derived, (Value.object source).namesOnce = true) (id : String) :
    Defines (derived.foldl mergePolicy base) s id ↔
      (Defines base s id ∧ ¬ IsReplaced base derived s) ∨
        ∃ source ∈ derived, Defines source s id := by
  obtain ⟨helements, name, rest, hpath, hhandled, hparty, -⟩ := handled_of_mem_definitionSections hs
  rw [defines_congr hpath (get?_foldl_mergePolicy hhandled hparty base derived)]
  -- what a write adds can be seen in an empty container
  let added (w : Write) (id : String) : Prop := w.path = s.container ∧
    Identifies (children (.object (w.change [])) s.elements) id
  have hempty : children (.object []) s.elements = [] :=
    children_of_containerFields_eq_nil helements rfl
  have hadded : ∀ source w, WritesSection source s w → ∀ id,
      (added w id ↔ Defines source s id) := by
    rintro source w ⟨hpath, hchange⟩ id
    simp [added, hpath, hchange, hempty]
  have hwrites : ∀ w ∈ derived.flatMap writesOf, Adds s w (added w) := by
    intro w hw
    obtain ⟨source, hsource, hw⟩ := List.mem_flatMap.mp hw
    rcases (writesOf_cases hs (honce source hsource)).1 w hw with hinto | happart
    · refine Or.inl ⟨hinto.1, fun fields id => ?_⟩
      rw [hinto.2, hadded source w hinto]
    · exact Or.inr ⟨happart, fun id h => happart.1 (h.1 ▸ List.prefix_rfl)⟩
  rw [identifies_written helements hwrites]
  refine or_congr (and_congr_right fun _ => ?_) ?_
  · simp only [IsReplaced, List.mem_flatMap, not_exists, not_and, Bool.not_eq_true]
    exact ⟨fun h source hsource w hw => h w ⟨source, hsource, hw⟩,
      fun h w ⟨source, hsource, hw⟩ => h source hsource w hw⟩
  · constructor
    · rintro ⟨w, hw, hid⟩
      obtain ⟨source, hsource, hw⟩ := List.mem_flatMap.mp hw
      rcases (writesOf_cases hs (honce source hsource)).1 w hw with hinto | happart
      · exact ⟨source, hsource, (hadded source w hinto id).mp hid⟩
      · exact absurd (hid.1 ▸ List.prefix_rfl) happart.1
    · rintro ⟨source, hsource, hid⟩
      obtain ⟨w, hw, hinto⟩ := (writesOf_cases hs (honce source hsource)).2 id hid
      exact ⟨w, List.mem_flatMap.mpr ⟨source, hsource, hw⟩, (hadded source w hinto id).mpr hid⟩

/-! ### The consolidated policy -/

/-- A tree that was accepted, whatever its file is called, and names every field once. -/
structure IsAccepted (tree : Value) : Prop where
  valid : ∃ fileName, isValid (validate tree fileName) = true
  namesOnce : tree.namesOnce = true

theorem IsAccepted.policyRoot? {tree : Value} (h : IsAccepted tree) :
    policyRoot? tree = .ok (rootOf tree) :=
  (get_rootName_of_isValid h.valid.choose_spec).2

theorem IsAccepted.namesOnce_rootOf {tree : Value} (h : IsAccepted tree) :
    (Value.object (rootOf tree)).namesOnce = true := by
  obtain ⟨fileName, hvalid⟩ := h.valid
  rw [← (get_rootName_of_isValid hvalid).1, Value.get]
  cases hget : tree.get? rootName with
  | none => rfl
  | some root => exact Value.namesOnce_of_get? h.namesOnce hget

/-- **When the consolidated policy defines all that the policies define.**  Accepted policies are
consolidated; and no definition of theirs is lost exactly when of each section of the base that
is replaced, because it stands in several containers and a derived policy writes there, the
derived policies define everything again. -/
theorem consolidate_defines_all_iff {base : Value} {derived : List Value}
    (h : ∀ tree ∈ base :: derived, IsAccepted tree) :
    ∃ root, consolidate (base :: derived) = .ok (.object [(rootName, .object root)]) ∧
      ((∀ s ∈ definitionSections, ∀ tree ∈ base :: derived, ∀ id,
          Defines (rootOf tree) s id → Defines root s id) ↔
        ∀ s ∈ definitionSections, IsReplaced (rootOf base) (derived.map rootOf) s → ∀ id,
          Defines (rootOf base) s id → ∃ tree ∈ derived, Defines (rootOf tree) s id) := by
  obtain ⟨root, hroot, hsections⟩ := consolidate_eq_ok fun tree htree => (h tree htree).policyRoot?
  rw [List.forall_mem_cons] at h
  refine ⟨root, hroot, forall₂_congr fun s hs => ?_⟩
  obtain ⟨-, name, rest, hpath, hhandled, -, hbase⟩ := handled_of_mem_definitionSections hs
  have honce : ∀ source ∈ derived.map rootOf, (Value.object source).namesOnce = true :=
    List.forall_mem_map.mpr fun tree htree => (h.2 tree htree).namesOnce_rootOf
  have hdefines : ∀ id, Defines root s id ↔
      (Defines (rootOf base) s id ∧ ¬ IsReplaced (rootOf base) (derived.map rootOf) s) ∨
        ∃ tree ∈ derived, Defines (rootOf tree) s id := fun id => by
    rw [defines_congr hpath (hsections name hhandled hbase),
      defines_foldl_mergePolicy_iff hs _ honce]
    simp only [List.mem_map, exists_exists_and_eq_and]
  simp only [hdefines, List.forall_mem_cons]
  constructor
  · rintro ⟨hof, -⟩ hreplaced id hid
    exact (hof id hid).resolve_left fun hkept => hkept.2 hreplaced
  · refine fun hagain => ⟨fun id hid => ?_, fun tree htree id hid => Or.inr ⟨tree, htree, hid⟩⟩
    by_cases hreplaced : IsReplaced (rootOf base) (derived.map rootOf) s
    · exact Or.inr (hagain hreplaced id hid)
    · exact Or.inl ⟨hid, hreplaced⟩

/-- A policy with types of claims, in one `BuildingBlocks` or in several. -/
def claimsPolicy (policyId : String) (blocks : List (List String)) : Value :=
  let block (ids : List String) : Value := .object [("ClaimsSchema",
    .object [("ClaimType", .list (ids.map fun id => .object [("@_Id", .text id)]))])]
  .object [(rootName, .object [("@_PolicyId", .text policyId), ("@_TenantId", .text "contoso"),
    ("BuildingBlocks", match blocks with
      | [ids] => block ids
      | blocks => .list (blocks.map block))])]

/-- A base whose types of claims stand in two `BuildingBlocks`. -/
def dividedClaims : Value := claimsPolicy "Base" [["email"], ["phone"]]

theorem consolidate_defines_all_restated :
    (∀ tree ∈ [dividedClaims, claimsPolicy "Derived" [["phone", "age", "email"]]],
        IsAccepted tree) ∧
      ∃ root, consolidate [dividedClaims, claimsPolicy "Derived" [["phone", "age", "email"]]] =
          .ok (.object [(rootName, .object root)]) ∧
        ∀ s ∈ definitionSections, ∀ tree ∈ [dividedClaims,
          claimsPolicy "Derived" [["phone", "age", "email"]]], ∀ id,
            Defines (rootOf tree) s id → Defines root s id := by
  have h : ∀ tree ∈ [dividedClaims, claimsPolicy "Derived" [["phone", "age", "email"]]],
      IsAccepted tree := by
    simp only [List.forall_mem_cons, List.not_mem_nil, false_imp_iff, implies_true, and_true]
    exact ⟨⟨⟨"", by decide⟩, by decide⟩,
      ⟨⟨"", by decide⟩, by decide⟩⟩
  obtain ⟨root, hroot, hiff⟩ := consolidate_defines_all_iff h
  refine ⟨h, root, hroot, hiff.mpr ?_⟩
  rintro s hs - id ⟨v, hv, hid⟩
  have hagain : ∀ s ∈ definitionSections,
      ∀ v ∈ children (.object (rootOf dividedClaims)) (s.container ++ s.elements),
        ∃ tree ∈ [claimsPolicy "Derived" [["phone", "age", "email"]]],
          ∃ w ∈ children (.object (rootOf tree)) (s.container ++ s.elements), id? w = id? v := by
    decide
  obtain ⟨tree, htree, w, hw, hwid⟩ := hagain s hs v hv
  exact ⟨tree, htree, w, hw, hwid.trans hid⟩

/-- **A definition is lost** when a derived policy defines another one in a section that the base
has in two containers. -/
theorem definition_lost :
    (∀ tree ∈ [dividedClaims, claimsPolicy "Derived" [["age"]]], IsAccepted tree) ∧
      ∃ root, consolidate [dividedClaims, claimsPolicy "Derived" [["age"]]] =
          .ok (.object [(rootName, .object root)]) ∧
        ∃ s ∈ definitionSections, Defines (rootOf dividedClaims) s "email" ∧
          ¬ Defines root s "email" := by
  refine ⟨?_, _, rfl, ⟨["BuildingBlocks", "ClaimsSchema"], ["ClaimType"]⟩, by
    simp [definitionSections, idMergedSections], by decide, by decide⟩
  simp only [List.forall_mem_cons, List.not_mem_nil, false_imp_iff, implies_true, and_true]
  exact ⟨⟨⟨"", by decide⟩, by decide⟩,
    ⟨⟨"", by decide⟩, by decide⟩⟩

end Policy
end TrustFramework
