import TrustFramework.Processing
import TrustFramework.Proofs.Entity.Agreement
import TrustFramework.Proofs.Inheritance.Consolidated
import TrustFramework.Proofs.Policy.Consolidation

/-!
# Consolidated definitions and the consolidated policy

Processing merges documents twice: their definitions, read one by one, amount to a consolidated
version of every thing, and their trees are merged into one policy, from which the things can be
read as well.  The two merges follow different rules.  A consolidated version takes each step,
claim and entry of metadata as a whole from the last document that has it; the merged tree keeps
of the earlier ones whatever the last does not say.  So both list the same things in the same
order, and they say the same about a thing where the last definition of it, laid onto the
earlier ones, reads as it does alone.

## Main definitions

* `definitionsIn` — the definitions of a thing in documents.
* `AgreeOn` — the consolidated version of a thing and its definition in the merged tree agree
  on a list.
* `DifferOn` — they do not have the same list.
* `AreSound` — documents that were accepted, none of whose profiles includes another.
* `JourneyKind.IsRegular`, `IsProvided` — a journey, or a profile, whose definitions are found
  again in the merged tree.

## Main results

* `consolidation_agrees` — **the consolidated versions and the merged tree agree.**
-/

namespace TrustFramework

open Policy Processing

variable {α β κ : Type}

/-- The definitions of a thing in documents, in order. -/
def definitionsIn (find : Value → List (Found α)) (documents : List Document) (id : String) :
    List (Found α) :=
  documents.flatMap fun d => (find (d.tree.get rootName)).filter fun f => f.id == id

/-- A thing has a consolidated version and one definition in a tree, which agree on a list of
theirs. `items` are the elements of the list in all definitions of the thing. -/
def AgreeOn [BEq κ] (view : α → List β) (key : β → κ) (read : Value → Option β)
    (items : List Value) (collection : Collection α) (tree : List (Found α)) (id : String) :
    Prop :=
  ∃ v f, collection.effective? id = some v ∧ v.isConsolidated = true ∧
    tree.filter (fun f => f.id == id) = [f] ∧
      Agreement key read items (view v.body) (view f.body)

/-- A thing has a consolidated version and one definition in a tree, with different lists. -/
def DifferOn (view : α → List β) (collection : Collection α) (tree : List (Found α))
    (id : String) : Prop :=
  ∃ v f, collection.effective? id = some v ∧ v.isConsolidated = true ∧
    tree.filter (fun f => f.id == id) = [f] ∧ view v.body ≠ view f.body

/-- Lists differ where the items of a key, merged, read otherwise than the last of them. -/
theorem AgreeOn.differOn [BEq κ] {view : α → List β} {key : β → κ} {read : Value → Option β}
    {items : List Value} {collection : Collection α} {tree : List (Found α)} {id : String}
    (h : AgreeOn view key read items collection tree id) (k : κ)
    (hk : (saying key read items k).getLast?.bind read ≠
      (laid? mergeElement (saying key read items k)).bind read) :
    DifferOn view collection tree id := by
  obtain ⟨v, f, hv, hconsolidated, hf, hagree⟩ := h
  exact ⟨v, f, hv, hconsolidated, hf, fun heq => hk (hagree.eq_iff.mp heq k)⟩

/-- Documents whose trees name every field once and were accepted. None of them is named like
the consolidated policy, and none of their profiles includes another. -/
@[mk_iff]
structure AreSound (documents : List Document) : Prop where
  valid : ∀ d ∈ documents, isValid (validate d.tree d.fileName) = true
  namesOnce : ∀ d ∈ documents, d.tree.namesOnce = true
  policyId : ∀ d ∈ documents, d.policyId ≠ consolidatedPolicyId
  includes : ∀ d ∈ documents, ∀ f ∈ technicalProfilesIn (d.tree.get rootName),
    f.body.includes.filter (fun id => !id.isEmpty) = none

instance (documents : List Document) : Decidable (AreSound documents) :=
  decidable_of_iff _ (areSound_iff documents).symm

/-! ### Accepted documents -/

/-- An accepted tree has a root. -/
theorem get_rootName_of_isValid {tree : Value} {fileName : String}
    (h : isValid (validate tree fileName) = true) :
    tree.get rootName = .object (rootOf tree) ∧ policyRoot? tree = .ok (rootOf tree) := by
  have hobject : ∃ fields, tree.get rootName = .object fields := by
    unfold validate at h
    split at h
    · next fields hfields => exact ⟨fields, hfields⟩
    · simp [isValid] at h
  obtain ⟨fields, hfields⟩ := hobject
  cases hget : tree.get? rootName with
  | none =>
    rw [Value.get, hget] at hfields
    cases hfields
  | some root =>
    obtain rfl : root = .object fields := by
      rw [Value.get, hget] at hfields
      exact hfields
    exact ⟨by rw [hfields, rootOf, hget, containerFields],
      by simp only [policyRoot?, hget, rootOf, containerFields]⟩

/-- A root has the sections of the documents' roots merged, but for the reference to the base. -/
def HasSections (root : Fields Value) (base : Document) (derived : List Document) : Prop :=
  ∀ name ∈ handledSections, name ≠ "BasePolicy" → Fields.get? root name =
    Fields.get? ((derived.map fun d => rootOf d.tree).foldl mergePolicy (rootOf base.tree)) name

namespace AreSound

variable {documents : List Document}

theorem mono (h : AreSound documents) {others : List Document}
    (hsub : ∀ d ∈ others, d ∈ documents) : AreSound others :=
  ⟨fun d hd => h.valid d (hsub d hd), fun d hd => h.namesOnce d (hsub d hd),
    fun d hd => h.policyId d (hsub d hd), fun d hd => h.includes d (hsub d hd)⟩

theorem get_rootName (h : AreSound documents) {d : Document} (hd : d ∈ documents) :
    d.tree.get rootName = .object (rootOf d.tree) :=
  (get_rootName_of_isValid (h.valid d hd)).1

theorem namesOnce_root (h : AreSound documents) {d : Document} (hd : d ∈ documents) :
    (Value.object (rootOf d.tree)).namesOnce = true := by
  rw [← h.get_rootName hd, Value.get]
  cases hget : d.tree.get? rootName with
  | none => simp [Value.namesOnce]
  | some root => exact Value.namesOnce_of_get? (h.namesOnce d hd) hget

theorem includesNothing (h : AreSound documents) :
    Profiles.IncludesNothing (extracted documents).technicalProfiles :=
  isExtracted_technicalProfiles.all_extracted fun d hd f hf v _ hbody => by
    rw [Profiles.includeOf?, hbody]
    exact h.includes d hd f hf

/-- The trees are merged into one, section by section. -/
theorem exists_consolidate {base : Document} {derived : List Document}
    (h : AreSound (base :: derived)) :
    ∃ root, consolidate ((base :: derived).map Document.tree) =
        .ok (.object [(rootName, .object root)]) ∧ HasSections root base derived := by
  have htrees : ∀ tree ∈ (base :: derived).map Document.tree,
      policyRoot? tree = .ok (rootOf tree) :=
    List.forall_mem_map.mpr fun d hd => (get_rootName_of_isValid (h.valid d hd)).2
  obtain ⟨root, hroot, hsections⟩ := consolidate_eq_ok htrees
  rw [List.map_map] at hsections
  exact ⟨root, hroot, hsections⟩

end AreSound

/-! ### Elements with identifiers -/

/-- What is found of an identifier are the elements that have it. -/
theorem map_node_filter_identified {element path id : String} {read : Value → α}
    (nodes : List Value) :
    ((nodes.filterMap (identified? element path read)).filter fun f => f.id == id).map
        Found.node = nodes.filter fun v => Policy.Node.id? v == some id := by
  induction nodes with
  | nil => rfl
  | cons v nodes ih =>
    cases hv : Policy.Node.id? v with
    | none => simpa [identified?, hv] using ih
    | some other =>
      by_cases hid : other = id <;> simp_all [identified?]

theorem body_of_mem_identified {element path : String} {read : Value → α} {nodes : List Value}
    {f : Found α} (h : f ∈ nodes.filterMap (identified? element path read)) :
    f.node ∈ nodes ∧ f.body = read f.node := by
  obtain ⟨v, hv, hf⟩ := List.mem_filterMap.mp h
  obtain ⟨id, -, rfl⟩ := Option.map_eq_some_iff.mp hf
  exact ⟨hv, rfl⟩

/-- The elements that define a thing in the tree make one element in the merged tree, laid onto
each other. -/
theorem exists_merged {find : Value → List (Found α)} {documents : List Document}
    {root : Fields Value} {id : String} (hdefined : definitionsIn find documents id ≠ [])
    (hroot : ((find (.object root)).filter fun f => f.id == id).map Found.node =
      (laid? mergeElement ((definitionsIn find documents id).map Found.node)).toList) :
    ∃ f, (find (.object root)).filter (fun f => f.id == id) = [f] ∧
      laid? mergeElement ((definitionsIn find documents id).map Found.node) = some f.node := by
  cases hlaid : laid? mergeElement ((definitionsIn find documents id).map Found.node) with
  | none => exact absurd (List.map_eq_nil_iff.mp (laid?_eq_none_iff.mp hlaid)) hdefined
  | some node =>
    rw [hlaid, Option.toList_some] at hroot
    obtain ⟨f, hf, hnode⟩ := List.map_eq_singleton_iff.mp hroot
    exact ⟨f, hf, by rw [hnode]⟩

/-- A thing agrees on a list whose lists agree wherever its elements merge and its definitions
are laid onto each other. -/
theorem agreeOn_of_definitions [Definition α] [BEq κ] {view : α → List β} {key : β → κ}
    {read : Value → Option β} {items : List Value} {collection : Collection α}
    {tree : List (Found α)} {id : String} {definitions : List (Found α)}
    {readList : Value → List β} {op : List β → List β → List β}
    (hlayer : ∀ x y, view (Definition.layer x y) = op (view x) (view y))
    (hdefinitions : ∀ f ∈ definitions, view f.body = readList f.node)
    (htree : ∀ f ∈ tree, view f.body = readList f.node)
    (hentity : ∃ v merged, laid? Definition.layer (definitions.map Found.body) = some merged ∧
      collection.effective? id = some v ∧ v.isConsolidated = true ∧ view v.body = view merged)
    (hmerged : ∃ f, tree.filter (fun f => f.id == id) = [f] ∧
      laid? mergeElement (definitions.map Found.node) = some f.node)
    (hagree : ∀ node entity, laid? mergeElement (definitions.map Found.node) = some node →
      laid? op ((definitions.map Found.node).map readList) = some entity →
        Agreement key read items entity (readList node)) :
    AgreeOn view key read items collection tree id := by
  obtain ⟨v, merged, hlaid, hv, hconsolidated, hview⟩ := hentity
  obtain ⟨f, hf, hnode⟩ := hmerged
  have hmem : f ∈ tree.filter fun f => f.id == id := hf ▸ List.mem_singleton_self f
  refine ⟨v, f, hv, hconsolidated, hf, ?_⟩
  rw [htree f (List.mem_of_mem_filter hmem), hview]
  refine hagree f.node (view merged) hnode ?_
  rw [← Option.map_some, ← hlaid, map_laid? view hlayer, List.map_map, List.map_map]
  exact congrArg _ (List.map_congr_left fun g hg => (hdefinitions g hg).symm)

/-- Definitions amount to something, if there are any. -/
theorem exists_laid? [Definition α] {definitions : List (Found α)} (h : definitions ≠ []) :
    ∃ merged, laid? Definition.layer (definitions.map Found.body) = some merged :=
  Option.ne_none_iff_exists'.mp fun hnone =>
    h (List.map_eq_nil_iff.mp (laid?_eq_none_iff.mp hnone))

/-! ### Journeys -/

/-- A kind of journeys: where a store keeps them and a tree defines them, and their steps. -/
structure JourneyKind (α : Type) [Definition α] where
  part : Store → Collection α
  place : String
  element : String
  read : Value → α
  steps : α → List OrchestrationStep
  isExtracted : IsExtracted part fun root => foundIn root [place] element read
  isIdMerged : IsIdMerged place element
  steps_read : ∀ node, steps (read node) = OrchestrationStep.readAll node
  steps_layer : ∀ base derived,
    steps (Definition.layer base derived) = layerSteps (steps base) (steps derived)
  part_layered : ∀ (store : Store) (fileName : String) (fileCount : Int),
    part (store.withAncestors.layered fileName fileCount) =
      (part store).consolidated (Store.consolidatedSource fileName fileCount)

/-- The journeys that a relying party can start. -/
def JourneyKind.user : JourneyKind UserJourney where
  part := Store.userJourneys
  place := "UserJourneys"
  element := "UserJourney"
  read := UserJourney.read
  steps := UserJourney.steps
  isExtracted := isExtracted_userJourneys
  isIdMerged := isIdMerged_userJourneys
  steps_read _ := rfl
  steps_layer _ _ := rfl
  part_layered _ _ _ := rfl

/-- The journeys that other journeys call. -/
def JourneyKind.sub : JourneyKind SubJourney where
  part := Store.subJourneys
  place := "SubJourneys"
  element := "SubJourney"
  read := SubJourney.read
  steps := SubJourney.steps
  isExtracted := isExtracted_subJourneys
  isIdMerged := isIdMerged_subJourneys
  steps_read _ := rfl
  steps_layer _ _ := rfl
  part_layered _ _ _ := rfl

namespace JourneyKind

variable [Definition α] (kind : JourneyKind α) {base : Document} {derived : List Document}
  {id : String}

/-- The journeys of a kind in a tree. -/
def find (root : Value) : List (Found α) := foundIn root [kind.place] kind.element kind.read

/-- The elements that are the steps of a journey in documents. -/
def stepsIn (documents : List Document) (id : String) : List Value :=
  (definitionsIn kind.find documents id).flatMap fun f => Listing.steps.items f.node

/-- A journey that documents define, the first of them once and in one section. Each definition
tells its steps apart by their numbers, and each number is written in one way. -/
@[mk_iff]
structure IsRegular (base : Document) (derived : List Document) (id : String) : Prop where
  section_single : ((base.tree.get rootName).get kind.place).isList = false
  defined : definitionsIn kind.find (base :: derived) id ≠ []
  single : (definitionsIn kind.find [base] id).length ≤ 1
  orderly : ∀ f ∈ definitionsIn kind.find (base :: derived) id, Listing.steps.IsOrderly f.node
  numbers : ∀ v ∈ kind.stepsIn (base :: derived) id, ∀ w ∈ kind.stepsIn (base :: derived) id,
    Policy.orderOf v = Policy.orderOf w → referenceKey v = referenceKey w

instance : Decidable (kind.IsRegular base derived id) :=
  decidable_of_iff _ (isRegular_iff kind base derived id).symm

theorem map_node_filter_find (root : Fields Value) (id : String) :
    ((kind.find (.object root)).filter fun f => f.id == id).map Found.node =
      (Policy.Node.children (.object root) [kind.place, kind.element]).filter
        fun v => Policy.Node.id? v == some id :=
  map_node_filter_identified _

/-- The definitions of a journey are the elements of its identifier. -/
theorem map_node_definitionsIn {documents : List Document} (h : AreSound documents) (id : String) :
    (definitionsIn kind.find documents id).map Found.node =
      ((documents.map fun d => rootOf d.tree).flatMap fun root =>
        Policy.Node.children (.object root) [kind.place, kind.element]).filter
          fun v => Policy.Node.id? v == some id := by
  rw [definitionsIn, List.map_flatMap, List.flatMap_map, List.filter_flatMap]
  refine List.flatMap_congr fun d hd => ?_
  rw [h.get_rootName hd, map_node_filter_find]

theorem namesOnce_node {documents : List Document} (h : AreSound documents) {f : Found α}
    (hf : f ∈ definitionsIn kind.find documents id) : f.node.namesOnce = true := by
  obtain ⟨d, hd, hf⟩ := List.mem_flatMap.mp hf
  rw [h.get_rootName hd] at hf
  exact Policy.Node.namesOnce_of_mem_children _ (h.namesOnce_root hd)
    (body_of_mem_identified (List.mem_of_mem_filter hf)).1

theorem steps_body {documents : List Document} {f : Found α}
    (hf : f ∈ definitionsIn kind.find documents id) :
    kind.steps f.body = OrchestrationStep.readAll f.node := by
  obtain ⟨d, -, hf⟩ := List.mem_flatMap.mp hf
  rw [(body_of_mem_identified (List.mem_of_mem_filter hf)).2, kind.steps_read]

/-- **The consolidated version of a journey and its element in the merged tree agree on the
steps.** -/
theorem agreeOn_steps (h : AreSound (base :: derived)) (hid : kind.IsRegular base derived id)
    {root : Fields Value} (hroot : HasSections root base derived) (fileName : String)
    (fileCount : Int) :
    AgreeOn kind.steps OrchestrationStep.order (some ∘ OrchestrationStep.read)
      (kind.stepsIn (base :: derived) id)
      (kind.part ((extracted (base :: derived)).withAncestors.layered fileName fileCount))
      (kind.find (.object root)) id := by
  have hsection := hid.section_single
  rw [h.get_rootName List.mem_cons_self] at hsection
  -- the merged tree has one element of the identifier
  have hlength : ((Policy.Node.children (.object (rootOf base.tree))
      [kind.place, kind.element]).filter fun v => Policy.Node.id? v == some id).length ≤ 1 := by
    have hof : AreSound [base] := h.mono (by simp)
    have hnodes := kind.map_node_definitionsIn hof id
    rw [List.map_singleton, List.flatMap_singleton] at hnodes
    rw [← hnodes, List.length_map]
    exact hid.single
  have honce : ∀ root ∈ derived.map fun d => rootOf d.tree,
      (Value.object root).namesOnce = true := fun root hmem => by
    obtain ⟨d, hd, rfl⟩ := List.mem_map.mp hmem
    exact h.namesOnce_root (List.mem_cons_of_mem base hd)
  have hmerged := filter_children_foldl_mergePolicy kind.isIdMerged hsection honce hlength
  rw [← children_section_congr
      (hroot _ kind.isIdMerged.mem_handledSections kind.isIdMerged.ne_basePolicy),
    ← kind.map_node_filter_find] at hmerged
  -- and the definitions amount to a consolidated version
  obtain ⟨merged, hlaid⟩ := exists_laid? hid.defined
  obtain ⟨v, hv, hconsolidated, rfl⟩ := kind.isExtracted.effective?_consolidated h.policyId
    (Store.consolidatedSource fileName fileCount) rfl hlaid
  have hitems : kind.stepsIn (base :: derived) id =
      ((definitionsIn kind.find (base :: derived) id).map Found.node).flatMap
        Listing.steps.items := by rw [stepsIn, List.flatMap_map]
  refine agreeOn_of_definitions kind.steps_layer (fun f hf => kind.steps_body hf) (fun f hf => ?_)
    ⟨v, v.body, hlaid, by rw [kind.part_layered]; exact hv, hconsolidated, rfl⟩
    (exists_merged hid.defined
      (hmerged.trans (by rw [kind.map_node_definitionsIn h, List.map_cons])))
    fun node entity hnode hentity => ?_
  · rw [(body_of_mem_identified hf).2, kind.steps_read]
  · have hnumbers := hid.numbers
    rw [hitems] at hnumbers ⊢
    exact agreement_of_numbered (List.forall_mem_map.mpr hid.orderly)
      (List.forall_mem_map.mpr fun g hg => kind.namesOnce_node h hg) hnumbers hnode hentity

end JourneyKind

/-! ### Technical profiles -/

section Profiles

variable {n id : String} {base : Document} {derived : List Document}

/-- A profile that documents define, each definition under a provider of one name and none for
the relying party. No provider has two names or defines the profile twice, and the first document
has one provider of the name at most. -/
@[mk_iff]
structure IsProvided (n : String) (base : Document) (derived : List Document) (id : String) :
    Prop where
  section_single : ((base.tree.get rootName).get "ClaimsProviders").isList = false
  names : ∀ d ∈ base :: derived, ∀ p ∈ providerNodes (d.tree.get rootName), HasOneName p
  name_single : ((providerNodes (base.tree.get rootName)).filter
    fun p => Policy.providerName? p == some n).length ≤ 1
  under : ∀ d ∈ base :: derived, ∀ p ∈ providerNodes (d.tree.get rootName), ∀ v ∈ profilesOf p,
    Policy.Node.id? v = some id → Policy.providerName? p = some n
  relyingParty : ∀ d ∈ base :: derived,
    ∀ v ∈ Policy.Node.children (d.tree.get rootName) ["RelyingParty", "TechnicalProfile"],
      Policy.Node.id? v ≠ some id
  defined : definitionsIn technicalProfilesIn (base :: derived) id ≠ []
  single : ∀ d ∈ base :: derived, ∀ p ∈ providerNodes (d.tree.get rootName),
    ((profilesOf p).filter fun v => Policy.Node.id? v == some id).length ≤ 1

instance : Decidable (IsProvided n base derived id) :=
  decidable_of_iff _ (isProvided_iff n base derived id).symm

theorem map_node_filter_technicalProfilesIn {root : Value}
    (h : ∀ v ∈ Policy.Node.children root ["RelyingParty", "TechnicalProfile"],
      Policy.Node.id? v ≠ some id) :
    ((technicalProfilesIn root).filter fun f => f.id == id).map Found.node =
      ((providerNodes root).flatMap profilesOf).filter fun v => Policy.Node.id? v == some id := by
  have hrelying : ((foundIn root ["RelyingParty"] "TechnicalProfile"
      (TechnicalProfile.read "RelyingParty")).filter fun f => f.id == id).map Found.node = [] := by
    rw [foundIn, map_node_filter_identified]
    exact List.filter_eq_nil_iff.mpr fun v hv hid => h v hv (by simpa using hid)
  rw [technicalProfilesIn, List.filter_append, List.map_append, hrelying, List.append_nil,
    List.filter_flatMap, List.map_flatMap, List.filter_flatMap]
  exact List.flatMap_congr fun p _ => map_node_filter_identified (profilesOf p)

/-- What is found of a profile was read from its element. -/
theorem body_of_mem_technicalProfilesIn {root : Value} {f : Found TechnicalProfile}
    (h : f ∈ technicalProfilesIn root) :
    ∃ label, f.body = TechnicalProfile.read label f.node := by
  rcases List.mem_append.mp h with h | h
  · obtain ⟨p, hp, hf⟩ := List.mem_flatMap.mp h
    exact ⟨_, (body_of_mem_identified hf).2⟩
  · exact ⟨_, (body_of_mem_identified h).2⟩

theorem namesOnce_of_mem_technicalProfilesIn {root : Value} {f : Found TechnicalProfile}
    (h : f ∈ technicalProfilesIn root) (honce : root.namesOnce = true) :
    f.node.namesOnce = true := by
  rcases List.mem_append.mp h with h | h
  · obtain ⟨p, hp, hf⟩ := List.mem_flatMap.mp h
    exact Policy.Node.namesOnce_of_mem_children _ (Policy.Node.namesOnce_of_mem_children _ honce hp)
      (body_of_mem_identified hf).1
  · exact Policy.Node.namesOnce_of_mem_children _ honce (body_of_mem_identified h).1

theorem IsProvided.map_node_definitionsIn (h : AreSound (base :: derived))
    (hid : IsProvided n base derived id) :
    (definitionsIn technicalProfilesIn (base :: derived) id).map Found.node =
      ((((base :: derived).map fun d => rootOf d.tree).flatMap fun root =>
        providerNodes (.object root)).flatMap profilesOf).filter
          fun v => Policy.Node.id? v == some id := by
  rw [definitionsIn, List.map_flatMap, List.flatMap_map, List.flatMap_assoc, List.filter_flatMap]
  refine List.flatMap_congr fun d hd => ?_
  rw [← h.get_rootName hd, map_node_filter_technicalProfilesIn (hid.relyingParty d hd)]

/-- **The consolidated version of a profile and its element in the merged tree agree on a list**
on which its definitions agree. -/
theorem IsProvided.agreeOn (h : AreSound (base :: derived)) (hid : IsProvided n base derived id)
    {root : Fields Value} (hroot : HasSections root base derived) (fileName : String)
    (fileCount : Int) [BEq κ] {view : TechnicalProfile → List β}
    {key : β → κ} {read : Value → Option β} {items : List Value}
    {readList : Value → List β} {op : List β → List β → List β}
    (hlayer : ∀ x y, view (Definition.layer x y) = op (view x) (view y))
    (hbare : ∀ p : TechnicalProfile, view p.bare = view p)
    (hread : ∀ label node, view (TechnicalProfile.read label node) = readList node)
    (hagree : ∀ node entity,
      laid? mergeElement ((definitionsIn technicalProfilesIn (base :: derived) id).map
        Found.node) = some node →
      laid? op (((definitionsIn technicalProfilesIn (base :: derived) id).map Found.node).map
        readList) = some entity → Agreement key read items entity (readList node)) :
    AgreeOn view key read items
      ((extracted (base :: derived)).withAncestors.layered fileName fileCount).technicalProfiles
      (technicalProfilesIn (.object root)) id := by
  have hroots : ∀ {P : Fields Value → Prop}, (∀ d ∈ base :: derived, P (rootOf d.tree)) →
      ∀ other ∈ rootOf base.tree :: derived.map fun d => rootOf d.tree, P other :=
    fun hP => List.forall_mem_map.mpr hP
  have hbase := h.get_rootName (d := base) List.mem_cons_self
  have hsection := hid.section_single
  have hname := hid.name_single
  rw [hbase] at hsection hname
  have hunder : ∀ other ∈ rootOf base.tree :: derived.map fun d => rootOf d.tree,
      ∀ p ∈ providerNodes (.object other), ∀ v ∈ profilesOf p, Policy.Node.id? v = some id →
        Policy.providerName? p = some n :=
    hroots fun d hd => by rw [← h.get_rootName hd]; exact hid.under d hd
  -- the merged tree has one element of the identifier
  have hmerged := filter_profiles_foldl_mergePolicy hsection
    (hroots fun d hd => h.namesOnce_root hd)
    (hroots fun d hd => by rw [← h.get_rootName hd]; exact hid.names d hd) hname hunder
    (hroots fun d hd => by rw [← h.get_rootName hd]; exact hid.single d hd)
  have hproviders : providerNodes (.object root) = providerNodes (.object
      ((derived.map fun d => rootOf d.tree).foldl mergePolicy (rootOf base.tree))) :=
    children_section_congr (hroot _ (by decide) (by decide))
  have hrelying : ∀ v ∈ Policy.Node.children (.object root) ["RelyingParty", "TechnicalProfile"],
      Policy.Node.id? v ≠ some id := by
    obtain ⟨other, hother, hget⟩ := exists_relyingParty_foldl_mergePolicy (rootOf base.tree)
      (derived.map fun d => rootOf d.tree)
    rw [children_section_congr ((hroot _ (by decide) (by decide)).trans hget)]
    revert other
    refine hroots fun d hd _ => ?_
    rw [← h.get_rootName hd]
    exact hid.relyingParty d hd
  rw [← hproviders, ← map_node_filter_technicalProfilesIn hrelying] at hmerged
  -- and the definitions amount to a consolidated version
  obtain ⟨merged, hlaid⟩ := exists_laid? hid.defined
  obtain ⟨hbodies, -, hsorted⟩ :=
    isExtracted_technicalProfiles.versions_spec (base :: derived) id
  obtain ⟨v, hv, hconsolidated, hbody⟩ := Profiles.effective?_withAncestors h.includesNothing
    (isExtracted_technicalProfiles.all_isConsolidated_eq_false h.policyId)
    (Store.consolidatedSource fileName fileCount) rfl hsorted (hbodies ▸ hlaid)
  have hread' : ∀ {f : Found TechnicalProfile},
      (∃ label, f.body = TechnicalProfile.read label f.node) → view f.body = readList f.node := by
    rintro f ⟨label, hf⟩
    rw [hf, hread]
  refine agreeOn_of_definitions hlayer (fun f hf => ?_)
    (fun f hf => hread' (body_of_mem_technicalProfilesIn hf))
    ⟨v, merged, hlaid, hv, hconsolidated, by rw [← hbare, hbody, hbare]⟩
    (exists_merged hid.defined (hmerged.trans (by rw [hid.map_node_definitionsIn h]; rfl))) hagree
  obtain ⟨d, hd, hf⟩ := List.mem_flatMap.mp hf
  exact hread' (body_of_mem_technicalProfilesIn (List.mem_of_mem_filter hf))

/-- The elements of a list in all definitions of a profile. -/
def itemsIn (l : Listing) (documents : List Document) (id : String) : List Value :=
  (definitionsIn technicalProfilesIn documents id).flatMap fun f => l.items f.node

/-- All definitions of a profile tell the items of a list apart. -/
def AreOrderly (l : Listing) (documents : List Document) (id : String) : Prop :=
  ∀ f ∈ definitionsIn technicalProfilesIn documents id, l.IsOrderly f.node

instance (l : Listing) (documents : List Document) (id : String) :
    Decidable (AreOrderly l documents id) :=
  inferInstanceAs
    (Decidable (∀ f ∈ definitionsIn technicalProfilesIn documents id, l.IsOrderly f.node))

theorem namesOnce_of_mem_definitionsIn {documents : List Document} (h : AreSound documents) :
    ∀ node ∈ (definitionsIn technicalProfilesIn documents id).map Found.node,
      node.namesOnce = true := by
  refine List.forall_mem_map.mpr fun f hf => ?_
  obtain ⟨d, hd, hf⟩ := List.mem_flatMap.mp hf
  refine namesOnce_of_mem_technicalProfilesIn (List.mem_of_mem_filter hf) ?_
  rw [h.get_rootName hd]
  exact h.namesOnce_root hd

theorem itemsIn_eq (l : Listing) (documents : List Document) (id : String) :
    itemsIn l documents id =
      ((definitionsIn technicalProfilesIn documents id).map Found.node).flatMap l.items := by
  rw [itemsIn, List.flatMap_map]

/-- The lists of claims that a profile has. -/
def claimLists : List (Listing × (TechnicalProfile → List ClaimReference)) :=
  [(Listing.inputClaims, TechnicalProfile.inputClaims),
    (Listing.displayClaims, TechnicalProfile.displayClaims),
    (Listing.persistedClaims, TechnicalProfile.persistedClaims),
    (Listing.outputClaims, TechnicalProfile.outputClaims)]

/-- What all lists of claims have in common. -/
theorem claimLists_spec : ∀ list ∈ claimLists,
    list.1.identifier = "ClaimTypeReferenceId" ∧
      (∀ x y, list.2 (Definition.layer x y) = layerClaims (list.2 x) (list.2 y)) ∧
      (∀ p : TechnicalProfile, list.2 p.bare = list.2 p) ∧
      ∀ label node, list.2 (TechnicalProfile.read label node) =
        ClaimReference.readAll node list.1.container list.1.element := by
  simp only [claimLists, List.forall_mem_cons]
  refine ⟨?_, ?_, ?_, ?_, by simp⟩ <;>
    exact ⟨rfl, fun _ _ => rfl, fun _ => rfl, fun _ _ => rfl⟩

variable {root : Fields Value}

theorem IsProvided.agreeOn_metadata (h : AreSound (base :: derived))
    (hid : IsProvided n base derived id) (hroot : HasSections root base derived)
    (horderly : AreOrderly Listing.metadata (base :: derived) id) (fileName : String)
    (fileCount : Int) :
    AgreeOn TechnicalProfile.metadata Prod.fst metadataOf?
      (itemsIn Listing.metadata (base :: derived) id)
      ((extracted (base :: derived)).withAncestors.layered fileName fileCount).technicalProfiles
      (technicalProfilesIn (.object root)) id := by
  refine hid.agreeOn h hroot _ _ (fun _ _ => rfl) (fun _ => rfl) (fun _ _ => rfl)
    fun node entity hnode hentity => ?_
  rw [itemsIn_eq]
  exact agreement_of_metadata (List.forall_mem_map.mpr horderly)
    (namesOnce_of_mem_definitionsIn h) hnode hentity

theorem IsProvided.agreeOn_claims (h : AreSound (base :: derived))
    (hid : IsProvided n base derived id) (hroot : HasSections root base derived)
    {list : Listing × (TechnicalProfile → List ClaimReference)} (hlist : list ∈ claimLists)
    (horderly : AreOrderly list.1 (base :: derived) id) (fileName : String) (fileCount : Int) :
    AgreeOn list.2 ClaimReference.claimType ClaimReference.read?
      (itemsIn list.1 (base :: derived) id)
      ((extracted (base :: derived)).withAncestors.layered fileName fileCount).technicalProfiles
      (technicalProfilesIn (.object root)) id := by
  obtain ⟨hidentifier, hlayer, hbare, hread⟩ := claimLists_spec list hlist
  refine hid.agreeOn h hroot _ _ hlayer hbare hread fun node entity hnode hentity => ?_
  rw [itemsIn_eq]
  exact agreement_of_claims hidentifier (List.forall_mem_map.mpr horderly)
    (namesOnce_of_mem_definitionsIn h) hnode hentity

end Profiles

/-! ### Agreement -/

/-- A document with a journey `SignIn`, a sub-journey `Verify` of the same steps, and a profile
`Login` under a provider. -/
def signInDocument (policyId : String) (base : Option String)
    (steps metadata claims : List Value) : Document where
  fileName := policyId
  policyId := policyId
  base := base
  tree :=
    let journey (id : String) : Value := .list [.object [("@_Id", .text id),
      ("OrchestrationSteps", .object [("OrchestrationStep", .list steps)])]]
    let profile : Value := .object [("@_Id", .text "Login"),
      ("Metadata", .object [("Item", .list metadata)]),
      ("OutputClaims", .object [("OutputClaim", .list claims)])]
    let provider : Value := .object [("DisplayName", .text "Local"),
      ("TechnicalProfiles", .object [("TechnicalProfile", .list [profile])])]
    let basePolicy : Fields Value := base.toList.map fun id =>
      ("BasePolicy", .object [("TenantId", .text "contoso"), ("PolicyId", .text id)])
    .object [(rootName, .object (
      [("@_PolicyId", .text policyId), ("@_TenantId", .text "contoso")] ++
      basePolicy ++ [("ClaimsProviders", .object [("ClaimsProvider", .list [provider])]),
        ("UserJourneys", .object [("UserJourney", journey "SignIn")]),
        ("SubJourneys", .object [("SubJourney", journey "Verify")])]))]

/-- A base policy with two steps, an entry of metadata and a claim. -/
def baseSignIn : Document := signInDocument "Base" none
  [.object [("@_Order", .text "1"), ("@_Type", .text "ClaimsExchange")],
    .object [("@_Order", .text "2"), ("@_Type", .text "SendClaims")]]
  [.object [("@_Key", .text "Mode"), ("#text", .text "Test")]]
  [.object [("@_ClaimTypeReferenceId", .text "email"), ("@_Required", .text "true")]]

/-- A derived policy that says its second step, its metadata and its claim anew, and has one more
step. -/
def restatedSignIn : Document := signInDocument "Derived" (some "Base")
  [.object [("@_Order", .text "2"), ("@_Type", .text "ClaimsExchange")],
    .object [("@_Order", .text "3"), ("@_Type", .text "SendClaims")]]
  [.object [("@_Key", .text "Mode"), ("#text", .text "Live")]]
  [.object [("@_ClaimTypeReferenceId", .text "email"), ("@_Required", .text "false")]]

/-- A derived policy that says of its first step only when it is passed over, and nothing but
their keys of its metadata and its claim. -/
def partialSignIn : Document := signInDocument "Derived" (some "Base")
  [.object [("@_Order", .text "1"),
    ("Preconditions", .object [("Precondition", .object [("@_Type", .text "ClaimsExist")])])]]
  [.object [("@_Key", .text "Mode")]]
  [.object [("@_ClaimTypeReferenceId", .text "email")]]

end TrustFramework
