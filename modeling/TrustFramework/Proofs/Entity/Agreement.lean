import TrustFramework.Entity.Extraction
import TrustFramework.Proofs.Entity.Layered
import TrustFramework.Proofs.Policy.Listing
import TrustFramework.Proofs.Sorting
import TrustFramework.Proofs.Union

/-!
# Lists that were layered, and lists that were merged

Two ways lead from the definitions of a thing to one list.  Either each definition is read and
the lists that were read are laid onto each other, so that for each key the last item is left;
or the elements are merged, so that for each key all items are laid onto each other, and the
list is read off the merged element.  Both lists have the same keys in the same order.  They
are equal just where the items of each key, merged, read like the last of them: where a
definition says in full what it says again.

## Main definitions

* `saying` — the elements that say what a key stands for.
* `Agreement` — what the layered and the merged list have in common, and when they are equal.

## Main results

* `agreement_of_definitions` — **lists in the order of their definitions, claims and metadata.**
* `agreement_of_numbered` — **lists of numbered steps.**
-/

namespace TrustFramework

open Policy

variable {α β κ : Type} [BEq κ]

/-- The elements among `all` that say what a key stands for, in order. -/
def saying (key : β → κ) (read : Value → Option β) (all : List Value) (k : κ) : List Value :=
  all.filter fun v => (read v).any fun x => key x == k

/-- The list of a thing as its versions amount to, and as it is read off the merged tree.
`all` are the elements of the definitions in order. Under each key the one has the last
definition, the other all definitions laid onto each other. -/
structure Agreement (key : β → κ) (read : Value → Option β) (all : List Value)
    (entity tree : List β) : Prop where
  nodup : (entity.map key).Nodup
  keys : tree.map key = entity.map key
  find?_entity : ∀ k, entity.find? (fun x => key x == k) =
    (saying key read all k).getLast?.bind read
  find?_tree : ∀ k, tree.find? (fun x => key x == k) =
    (laid? mergeElement (saying key read all k)).bind read
  eq_iff : entity = tree ↔ ∀ k, (saying key read all k).getLast?.bind read =
    (laid? mergeElement (saying key read all k)).bind read

section Reading

variable {read : Value → Option β} {key : β → κ} {all : List Value}

theorem getLast?_filterMap (h : ∀ v ∈ all, (read v).isSome = true) :
    (all.filterMap read).getLast? = all.getLast?.bind read := by
  induction all using List.reverseRecOn with
  | nil => rfl
  | append_singleton all v _ =>
    obtain ⟨x, hx⟩ := Option.isSome_iff_exists.mp (h v (by simp))
    simp [hx]

/-- Of what was read, the last item of a key is the last element that says it. -/
theorem getLast?_filter_filterMap (k : κ) :
    ((all.filterMap read).filter fun x => key x == k).getLast? =
      (saying key read all k).getLast?.bind read := by
  have hfilter : (all.filterMap read).filter (fun x => key x == k) =
      (saying key read all k).filterMap read := by
    rw [List.filter_filterMap, saying, List.filterMap_filter]
    congr 1
    funext v
    cases hv : read v with
    | none => rfl
    | some x => by_cases hx : key x == k <;> simp [hx]
  rw [hfilter]
  refine getLast?_filterMap fun v hv => ?_
  cases hread : read v with
  | none => simp [saying, hread] at hv
  | some x => rfl

end Reading

section Agreement

variable [LawfulBEq κ] {read : Value → Option β} {key : β → κ} {all items : List Value}
  {entity tree : List β}

/-- What the elements of the merged list say is the list that was merged; if both lists have
the same keys, they agree. -/
theorem agreement_of_layers (hlayers : Layers referenceKey mergeElement all items)
    (hsame : ∀ v ∈ all ++ items, ∀ w ∈ all ++ items,
      referenceKey v = referenceKey w → (read v).map key = (read w).map key)
    (hapart : ∀ v ∈ all, ∀ w ∈ all,
      (read v).map key = (read w).map key → referenceKey v = referenceKey w)
    (hentity : Layers key later (all.filterMap read) entity)
    (htree : tree.Perm (items.filterMap read)) (hkeys : tree.map key = entity.map key) :
    Agreement key read all entity tree := by
  have hfindEntity : ∀ k, entity.find? (fun x => key x == k) =
      (saying key read all k).getLast?.bind read := fun k => by
    rw [hentity.find?_eq_getLast?, getLast?_filter_filterMap]
  have hfindTree : ∀ k, tree.find? (fun x => key x == k) =
      (laid? mergeElement (saying key read all k)).bind read := by
    intro k
    have hpred : (fun v => (read v).any fun x => key x == k) =
        fun v => (read v).map key == some k := by
      funext v
      cases read v <;> rfl
    have hnodup : ((items.filterMap read).map key).Nodup := by
      rw [← (htree.map key).nodup_iff, hkeys]
      exact hentity.nodup
    rw [find?_eq_of_perm hnodup htree, List.find?_filterMap, saying, hpred,
      hlayers.find?_of_same hsame hapart]
  refine ⟨hentity.nodup, hkeys, hfindEntity, hfindTree, fun heq k => ?_, fun heq => ?_⟩
  · rw [← hfindEntity, ← hfindTree, heq]
  · exact eq_of_find?_eq hentity.nodup hkeys fun k => by rw [hfindEntity, hfindTree, heq k]

end Agreement

/-! ### Lists in the order of their definitions -/

section Identified

variable {read : Value → Option β} {key : β → String} {l : Listing}
  {op : List β → List β → List β}

/-- The key of an element in the text that identifies it. -/
theorem map_referenceKey
    (hread : ∀ v, (read v).map key = Policy.Node.solidAttribute? v l.identifier)
    {items : List Value} (h : ∀ v ∈ items, l.Identifies v) :
    items.map referenceKey =
      ((items.filterMap read).map key).map fun s => [(l.identifier, s)] := by
  induction items with
  | nil => rfl
  | cons v items ih =>
    obtain ⟨⟨s, hs, hkey⟩, hitems⟩ := List.forall_mem_cons.mp h
    obtain ⟨x, hx, rfl⟩ := Option.map_eq_some_iff.mp ((hread v).trans hs)
    rw [List.map_cons, hkey, ih hitems, List.filterMap_cons_some hx, List.map_cons, List.map_cons]

/-- **The lists of definitions agree where each item is identified by one attribute**: the items
as they were read, laid onto each other by `op`, and those that are read off the definitions
merged. -/
theorem agreement_of_definitions (hl : l.identifier ≠ "Order")
    (hread : ∀ v, (read v).map key = Policy.Node.solidAttribute? v l.identifier)
    (hlayers : ∀ all base derived : List β, Layers key later all base →
      (derived.map key).Nodup → Layers key later (all ++ derived) (op base derived))
    (hkeys : ∀ base derived : List β, (base.map key).Nodup → (derived.map key).Nodup →
      (op base derived).map key = addAllNew (base.map key) (derived.map key))
    {definitions : List Value} (horderly : ∀ d ∈ definitions, l.IsOrderly d)
    (honce : ∀ d ∈ definitions, d.namesOnce = true) {node : Value}
    (hnode : laid? mergeElement definitions = some node) {entity : List β}
    (hentity : laid? op (definitions.map fun d => (l.items d).filterMap read) = some entity) :
    Agreement key read (definitions.flatMap l.items) entity ((l.items node).filterMap read) := by
  obtain ⟨hnodeOrderly, hmerged, hmergedKeys⟩ := Listing.layers_items horderly honce hnode
  have hinjective : ∀ s t : String, [(l.identifier, s)] = [(l.identifier, t)] → s = t := by simp
  have hall : ∀ v ∈ definitions.flatMap l.items, l.Identifies v := fun v hv => by
    obtain ⟨d, hd, hv⟩ := List.mem_flatMap.mp hv
    exact (horderly d hd).identifies v hv
  have hlists : ∀ list ∈ definitions.map fun d => (l.items d).filterMap read,
      (list.map key).Nodup := by
    intro list hlist
    obtain ⟨d, hd, rfl⟩ := List.mem_map.mp hlist
    have hnodup := (horderly d hd).nodup
    rw [map_referenceKey hread (horderly d hd).identifies] at hnodup
    exact hnodup.of_map _
  have hflatten : (definitions.map fun d => (l.items d).filterMap read).flatten =
      (definitions.flatMap l.items).filterMap read := by
    rw [List.filterMap_flatMap, List.flatMap_def]
  -- an identified element has as its key what it reads as
  have hkeyOf : ∀ v, l.Identifies v → ∀ w, l.Identifies w →
      (referenceKey v = referenceKey w ↔ (read v).map key = (read w).map key) := by
    rintro v ⟨s, hs, hv⟩ w ⟨t, ht, hw⟩
    simp [hread, hs, ht, hv, hw]
  have hidentifies : ∀ v ∈ definitions.flatMap l.items ++ l.items node, l.Identifies v :=
    List.forall_mem_append.mpr ⟨hall, hnodeOrderly.identifies⟩
  refine agreement_of_layers hmerged
    (fun v hv w hw => (hkeyOf v (hidentifies v hv) w (hidentifies w hw)).mp)
    (fun v hv w hw => (hkeyOf v (hall v hv) w (hall w hw)).mpr) ?_ (List.Perm.refl _) ?_
  · rw [← hflatten]
    exact layers_laid? hlayers hlists hentity
  · have horder := hmergedKeys hl
    rw [map_referenceKey hread hnodeOrderly.identifies, map_referenceKey hread hall,
      distinct_map hinjective] at horder
    rw [keys_laid? hkeys hlists hentity, hflatten]
    exact (List.map_injective_iff.mpr hinjective) horder

end Identified

/-- Where definitions keep claims. -/
def Policy.Listing.inputClaims : Listing :=
  ⟨"InputClaims", "InputClaim", "ClaimTypeReferenceId", by decide, by decide⟩

@[inherit_doc Policy.Listing.inputClaims]
def Policy.Listing.displayClaims : Listing :=
  ⟨"DisplayClaims", "DisplayClaim", "ClaimTypeReferenceId", by decide, by decide⟩

@[inherit_doc Policy.Listing.inputClaims]
def Policy.Listing.persistedClaims : Listing :=
  ⟨"PersistedClaims", "PersistedClaim", "ClaimTypeReferenceId", by decide, by decide⟩

@[inherit_doc Policy.Listing.inputClaims]
def Policy.Listing.outputClaims : Listing :=
  ⟨"OutputClaims", "OutputClaim", "ClaimTypeReferenceId", by decide, by decide⟩

/-- Claims are told apart by their types. -/
theorem agreement_of_claims {l : Listing} (hl : l.identifier = "ClaimTypeReferenceId")
    {definitions : List Value} (horderly : ∀ d ∈ definitions, l.IsOrderly d)
    (honce : ∀ d ∈ definitions, d.namesOnce = true) {node : Value}
    (hnode : laid? mergeElement definitions = some node) {entity : List ClaimReference}
    (hentity : laid? layerClaims
      (definitions.map fun d => ClaimReference.readAll d l.container l.element) = some entity) :
    Agreement ClaimReference.claimType ClaimReference.read? (definitions.flatMap l.items) entity
      (ClaimReference.readAll node l.container l.element) := by
  refine agreement_of_definitions (by rw [hl]; decide) (fun v => ?_)
    (fun _ _ _ => layers_layerClaims) (fun base _ _ => map_layerClaims base) horderly honce hnode
    hentity
  rw [hl, ClaimReference.read?, Option.map_map]
  exact congrFun Option.map_id _

/-- Where definitions keep their metadata. -/
def Policy.Listing.metadata : Listing := ⟨"Metadata", "Item", "Key", by decide, by decide⟩

/-- The entry of the metadata that an element stands for. -/
def metadataOf? (item : Value) : Option (String × String) :=
  (Policy.Node.solidAttribute? item "Key").map fun key => (key, (Policy.Node.text? item).getD "")

/-- Metadata is told apart by its keys. -/
theorem agreement_of_metadata {definitions : List Value}
    (horderly : ∀ d ∈ definitions, Listing.metadata.IsOrderly d)
    (honce : ∀ d ∈ definitions, d.namesOnce = true) {node : Value}
    (hnode : laid? mergeElement definitions = some node) {entity : Fields String}
    (hentity : laid? Fields.update (definitions.map readMetadata) = some entity) :
    Agreement Prod.fst metadataOf? (definitions.flatMap Listing.metadata.items) entity
      (readMetadata node) := by
  have hread : ∀ v, (metadataOf? v).map Prod.fst = Policy.Node.solidAttribute? v "Key" := by
    intro v
    rw [metadataOf?, Option.map_map]
    exact congrFun Option.map_id _
  -- keys come once, so that the entries are what is read
  have hmetadata : ∀ d, Listing.metadata.IsOrderly d →
      readMetadata d = (Listing.metadata.items d).filterMap metadataOf? := by
    intro d hd
    have hnodup := hd.nodup
    rw [map_referenceKey hread hd.identifies] at hnodup
    exact Fields.ofPairs_eq_self (hnodup.of_map _)
  rw [hmetadata node (Listing.layers_items horderly honce hnode).1]
  rw [List.map_congr_left fun d hd => hmetadata d (horderly d hd)] at hentity
  exact agreement_of_definitions (by decide) hread (fun _ _ derived h _ => layers_update h derived)
    (fun base derived _ _ => Fields.names_update base derived) horderly honce hnode hentity

/-! ### Lists of numbered steps -/

/-- Where journeys keep their steps. -/
def Policy.Listing.steps : Listing :=
  ⟨"OrchestrationSteps", "OrchestrationStep", "Order", by decide, by decide⟩

section Steps

variable {d : Value}

theorem readAll_perm (hd : Listing.steps.IsOrderly d) :
    (OrchestrationStep.readAll d).Perm
      ((Listing.steps.items d).filterMap (some ∘ OrchestrationStep.read)) := by
  have hobjects : ∀ v ∈ Listing.steps.items d, v.isObject = true := fun v hv => by
    obtain ⟨s, -, hkey⟩ := hd.identifies v hv
    exact isObject_of_referenceKey_ne_nil (by simp [hkey])
  have hfilter : (Policy.Node.children d ["OrchestrationSteps", "OrchestrationStep"]).filter
      Value.isObject = Listing.steps.items d := List.filter_eq_self.mpr hobjects
  unfold OrchestrationStep.readAll
  dsimp only
  rw [hfilter, List.filterMap_eq_map]
  exact List.mergeSort_perm _ _

/-- Steps whose numbers are written in one way each have one element for each number. -/
theorem nodup_orders (hd : Listing.steps.IsOrderly d)
    (hnumbers : ∀ v ∈ Listing.steps.items d, ∀ w ∈ Listing.steps.items d,
      Policy.orderOf v = Policy.orderOf w → referenceKey v = referenceKey w) :
    ((OrchestrationStep.readAll d).map OrchestrationStep.order).Nodup := by
  rw [((readAll_perm hd).map _).nodup_iff, List.filterMap_eq_map, List.map_map, List.Nodup,
    List.pairwise_map]
  exact (List.pairwise_map.mp hd.nodup).imp_of_mem fun hv hw hne horder =>
    hne (hnumbers _ hv _ hw horder)

theorem ascends_readAll (h : ((OrchestrationStep.readAll d).map OrchestrationStep.order).Nodup) :
    Ascends (OrchestrationStep.readAll d) := by
  have hsorted : (OrchestrationStep.readAll d).Pairwise fun s t => s.order ≤ t.order :=
    pairwise_le_mergeSort OrchestrationStep.order _
  exact (hsorted.and (List.pairwise_map.mp h)).imp fun ⟨hle, hne⟩ => by omega

theorem map_order_eq_of_ascends {steps others : List OrchestrationStep} (hs : Ascends steps)
    (ho : Ascends others)
    (h : ∀ n, n ∈ steps.map OrchestrationStep.order ↔ n ∈ others.map OrchestrationStep.order) :
    steps.map OrchestrationStep.order = others.map OrchestrationStep.order := by
  have hsorted : (steps.map OrchestrationStep.order).Pairwise (· < ·) := List.pairwise_map.mpr hs
  have hothers : (others.map OrchestrationStep.order).Pairwise (· < ·) := List.pairwise_map.mpr ho
  refine ((List.perm_ext_iff_of_nodup hs.nodup ho.nodup).mpr h).eq_of_pairwise ?_ hsorted hothers
  intro m n _ _ hmn hnm
  omega

/-- **The steps of definitions agree where each is identified by its number**, and a number is
written in one way. -/
theorem agreement_of_numbered {definitions : List Value}
    (horderly : ∀ d ∈ definitions, Listing.steps.IsOrderly d)
    (honce : ∀ d ∈ definitions, d.namesOnce = true)
    (hnumbers : ∀ v ∈ definitions.flatMap Listing.steps.items,
      ∀ w ∈ definitions.flatMap Listing.steps.items,
        Policy.orderOf v = Policy.orderOf w → referenceKey v = referenceKey w)
    {node : Value} (hnode : laid? mergeElement definitions = some node)
    {entity : List OrchestrationStep}
    (hentity : laid? layerSteps (definitions.map OrchestrationStep.readAll) = some entity) :
    Agreement OrchestrationStep.order (some ∘ OrchestrationStep.read)
      (definitions.flatMap Listing.steps.items) entity (OrchestrationStep.readAll node) := by
  obtain ⟨hnodeOrderly, hmerged, -⟩ := Listing.layers_items horderly honce hnode
  have hmem : ∀ d ∈ definitions, ∀ v ∈ Listing.steps.items d,
      v ∈ definitions.flatMap Listing.steps.items :=
    fun d hd v hv => List.mem_flatMap.mpr ⟨d, hd, hv⟩
  have hnodup : ∀ d ∈ definitions,
      ((OrchestrationStep.readAll d).map OrchestrationStep.order).Nodup := fun d hd =>
    nodup_orders (horderly d hd) fun v hv w hw => hnumbers v (hmem d hd v hv) w (hmem d hd w hw)
  -- the steps of the merged element have numbers of their own again
  have hnodupNode : ((OrchestrationStep.readAll node).map OrchestrationStep.order).Nodup := by
    refine nodup_orders hnodeOrderly fun v hv w hw horder => ?_
    obtain ⟨v', hv', hvkey⟩ := hmerged.exists_of_mem hv
    obtain ⟨w', hw', hwkey⟩ := hmerged.exists_of_mem hw
    rw [← hvkey, ← hwkey]
    refine hnumbers v' hv' w' hw' ?_
    rw [orderOf_eq_of_referenceKey_eq hvkey, horder, orderOf_eq_of_referenceKey_eq hwkey.symm]
  have hlayers : Layers OrchestrationStep.order later
      ((definitions.flatMap Listing.steps.items).filterMap (some ∘ OrchestrationStep.read))
      entity := by
    have hread := layers_laid? (fun all base derived h _ => layers_layerSteps h derived)
      (fun list hlist => by
        obtain ⟨d, hd, rfl⟩ := List.mem_map.mp hlist
        exact hnodup d hd) hentity
    refine ⟨hread.nodup, fun n => ?_⟩
    -- sorting a list changes nothing about the step of a number
    rw [hread.find?_eq, ← List.flatMap_def, List.filter_flatMap, List.filterMap_flatMap,
      List.filter_flatMap]
    refine congrArg _ (List.flatMap_congr fun d hd => ?_)
    exact (filter_eq_of_perm (hnodup d hd) (readAll_perm (horderly d hd)).symm n).symm
  have hascends : Ascends entity := by
    refine laid?_induction (Q := Ascends) (P := fun _ result => Ascends result)
      (fun _ h => h) (fun _ base derived _ _ => ascends_layerSteps base derived) ?_ hentity
    intro list hlist
    obtain ⟨d, hd, rfl⟩ := List.mem_map.mp hlist
    exact ascends_readAll (hnodup d hd)
  refine agreement_of_layers hmerged
    (fun _ _ _ _ h => congrArg some (orderOf_eq_of_referenceKey_eq h))
    (fun v hv w hw h => hnumbers v hv w hw (Option.some.inj h)) hlayers
    (readAll_perm hnodeOrderly)
    (map_order_eq_of_ascends (ascends_readAll hnodupNode) hascends fun n => ?_)
  have hentityOrders : n ∈ entity.map OrchestrationStep.order ↔
      n ∈ (definitions.flatMap Listing.steps.items).map Policy.orderOf := by
    rw [hlayers.mem_map_iff fun _ _ _ _ h => h, List.filterMap_eq_map, List.map_map]
    rfl
  have htreeOrders : n ∈ (OrchestrationStep.readAll node).map OrchestrationStep.order ↔
      n ∈ (Listing.steps.items node).map Policy.orderOf := by
    rw [((readAll_perm hnodeOrderly).map _).mem_iff, List.filterMap_eq_map, List.map_map]
    rfl
  rw [hentityOrders, htreeOrders]
  exact hmerged.mem_map_iff fun _ _ _ _ h => orderOf_eq_of_referenceKey_eq h

end Steps

end TrustFramework
