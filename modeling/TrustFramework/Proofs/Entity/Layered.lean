import TrustFramework.Entity.Definition
import TrustFramework.Proofs.Policy.Layering
import TrustFramework.Proofs.Policy.Tree

/-!
# Lists of layered definitions

Laid onto each other, definitions keep their lists item by item, and for each key the last item
is left: of claims the last reference, of metadata the last text, of steps the last one with the
number.  Claims and metadata stay in the order in which they came; steps ascend.

## Main results

* `layers_layerClaims`, `map_layerClaims` — references to claims, one list onto another.
* `layers_update` — metadata.
* `layers_layerSteps`, `ascends_layerSteps` — steps.
* `layers_laid?`, `keys_laid?` — **the list of several definitions holds, for each key, the last
  item**, and its keys are in the order in which they came.
-/

namespace TrustFramework

/-- The later of two items. -/
abbrev later {α : Type} (_ x : α) : α := x

section Later

variable {α κ : Type} [BEq κ] [LawfulBEq κ] {key : α → κ} {all result : List α}

omit [LawfulBEq κ] in
theorem Layers.find?_eq_getLast? (h : Layers key later all result) (k : κ) :
    result.find? (fun x => key x == k) = (all.filter fun x => key x == k).getLast? := by
  rw [h.find?_eq k, laid?_last]

omit [LawfulBEq κ] in
/-- What a list with the last item of each key has, and further items decide otherwise. -/
theorem Layers.getLast?_filter_append (h : Layers key later all result) (more : List α) (k : κ) :
    ((all ++ more).filter fun x => key x == k).getLast? =
      ((more.filter fun x => key x == k).getLast?).or (result.find? fun x => key x == k) := by
  rw [List.filter_append, List.getLast?_append, h.find?_eq_getLast?]

end Later

/-! ### Claims -/

theorem ClaimReference.overriddenBy_eq (derived : List ClaimReference) (c : ClaimReference) :
    c.overriddenBy derived =
      ((derived.filter fun d => d.claimType == c.claimType).getLast?).getD c := by
  rw [overriddenBy, ← List.head?_filter, List.filter_reverse, List.head?_reverse]
  rfl

theorem ClaimReference.claimType_overriddenBy (derived : List ClaimReference)
    (c : ClaimReference) : (c.overriddenBy derived).claimType = c.claimType := by
  rw [overriddenBy_eq]
  cases h : (derived.filter fun d => d.claimType == c.claimType).getLast? with
  | none => rfl
  | some d => simpa using (List.mem_filter.mp (List.mem_of_getLast? h)).2

/-- The claims of a base stay in their order, those that are new follow. -/
theorem map_layerClaims (base : List ClaimReference) {derived : List ClaimReference}
    (hderived : (derived.map ClaimReference.claimType).Nodup) :
    (layerClaims base derived).map ClaimReference.claimType =
      addAllNew (base.map ClaimReference.claimType)
        (derived.map ClaimReference.claimType) := by
  have hnew : ∀ d : ClaimReference, (base.any fun c => decide (c.claimType = d.claimType)) =
      (base.map ClaimReference.claimType).contains d.claimType := by
    intro d
    rw [Bool.eq_iff_iff]
    simp
  simp only [layerClaims, hnew]
  rw [addAllNew_eq_append _ hderived, List.map_append, List.map_map, List.filter_map]
  congr 1
  exact List.map_congr_left fun c _ => ClaimReference.claimType_overriddenBy derived c

/-- **Of each claim the last reference is left.** -/
theorem layers_layerClaims {all base derived : List ClaimReference}
    (h : Layers ClaimReference.claimType later all base)
    (hderived : (derived.map ClaimReference.claimType).Nodup) :
    Layers ClaimReference.claimType later (all ++ derived) (layerClaims base derived) where
  nodup := by
    rw [map_layerClaims base hderived]
    exact nodup_addAllNew h.nodup _
  find?_eq claim := by
    rw [laid?_last, h.getLast?_filter_append, layerClaims, List.find?_append, List.find?_map,
      List.find?_filter]
    simp only [Function.comp_def, ClaimReference.claimType_overriddenBy]
    cases hbase : base.find? fun c => c.claimType == claim with
    | some c =>
      obtain rfl : c.claimType = claim := by simpa using List.find?_some hbase
      rw [Option.map_some, ClaimReference.overriddenBy_eq]
      cases (derived.filter fun d => d.claimType == c.claimType).getLast? <;> rfl
    | none =>
      -- the claim is new, so that its reference is not left out
      have hnew : ∀ d : ClaimReference,
          (decide ((!base.any fun c => decide (c.claimType = d.claimType)) = true ∧
            (d.claimType == claim) = true)) = (d.claimType == claim) := by
        intro d
        by_cases hd : d.claimType = claim <;> simp_all
      simp only [hnew, filter_eq_toList_find? hderived]
      cases derived.find? fun d => d.claimType == claim <;> rfl

/-! ### Metadata -/

/-- Setting a name among names that occur once is laying its entry onto the others. -/
theorem Fields.set_eq_lay {α : Type} {fields : Fields α} (h : fields.names.Nodup)
    (entry : String × α) :
    fields.set entry.1 entry.2 = lay (fun e => some e.1) later fields entry := by
  have hlay : ∀ items : Fields α, lay (fun e => some e.1) later items entry =
      (Policy.replaceLast (fun e => some e.1 == some entry.1) (fun _ => entry) items).getD
        (items ++ [entry]) := fun _ => rfl
  rw [hlay]
  induction fields with
  | nil => rfl
  | cons first rest ih =>
    obtain ⟨hfirst, hrest⟩ := List.nodup_cons.mp h
    have ih := ih hrest
    by_cases hname : first.1 = entry.1
    · -- the name does not come again, so that the first entry of it is the last
      have hnone : Policy.replaceLast (fun e => some e.1 == some entry.1) (fun _ => entry) rest =
          none := by
        refine Policy.replaceLast_eq_none_iff.mpr fun e he => ?_
        have : e.1 ≠ entry.1 := fun heq =>
          hfirst (hname ▸ heq ▸ List.mem_map_of_mem (f := Prod.fst) he)
        simpa using this
      rw [Policy.replaceLast, hnone, if_pos (by simpa using hname)]
      simp [set, hname]
    · cases hrest : Policy.replaceLast (fun e => some e.1 == some entry.1) (fun _ => entry) rest
        <;> simp_all [set, Policy.replaceLast]

theorem Fields.update_eq_foldl_lay {α : Type} {fields : Fields α} (h : fields.names.Nodup)
    (news : Fields α) :
    fields.update news = news.foldl (lay (fun e => some e.1) later) fields := by
  unfold update
  induction news generalizing fields with
  | nil => rfl
  | cons entry news ih =>
    rw [List.foldl_cons, List.foldl_cons, ih (nodup_names_set h _ _), set_eq_lay h]

/-- **Of each name the last entry is left.** -/
theorem layers_update {all base : Fields String} (h : Layers Prod.fst later all base)
    (derived : Fields String) : Layers Prod.fst later (all ++ derived) (base.update derived) := by
  rw [Fields.update_eq_foldl_lay h.nodup]
  exact h.foldl_lay fun _ _ _ _ => rfl

/-- Entries of different names are the fields that they describe. -/
theorem Fields.ofPairs_eq_self {pairs : List (String × String)}
    (h : (pairs.map Prod.fst).Nodup) : Fields.ofPairs pairs = pairs := by
  rw [ofPairs, update_eq_foldl_lay (by exact List.nodup_nil)]
  exact foldl_lay_nil h fun _ _ _ _ => rfl

/-! ### Steps -/

/-- Steps that ascend, one for each number. -/
def Ascends (steps : List OrchestrationStep) : Prop :=
  steps.Pairwise fun s t => s.order < t.order

variable {steps : List OrchestrationStep}

theorem Ascends.nodup (h : Ascends steps) : (steps.map OrchestrationStep.order).Nodup :=
  List.pairwise_map.mpr (h.imp fun h => Int.ne_of_lt h)

theorem mem_placeStep {s t : OrchestrationStep} (h : t ∈ placeStep s steps) :
    t = s ∨ t ∈ steps := by
  induction steps with
  | nil => simpa [placeStep] using h
  | cons first rest ih =>
    unfold placeStep at h
    split at h
    · simpa using h
    split at h
    · rcases List.mem_cons.mp h with h | h <;> simp [h]
    · rcases List.mem_cons.mp h with rfl | h
      · simp
      · exact (ih h).imp_right (List.mem_cons_of_mem first)

theorem Ascends.placeStep (h : Ascends steps) (s : OrchestrationStep) :
    Ascends (placeStep s steps) := by
  induction steps with
  | nil => exact List.pairwise_singleton _ s
  | cons first rest ih =>
    obtain ⟨hfirst, hrest⟩ := List.pairwise_cons.mp h
    unfold TrustFramework.placeStep
    split
    · next hlt =>
      refine List.pairwise_cons.mpr ⟨fun t ht => ?_, h⟩
      rcases List.mem_cons.mp ht with rfl | ht
      · exact hlt
      · exact Int.lt_trans hlt (hfirst t ht)
    split
    · next heq => exact List.pairwise_cons.mpr ⟨fun t ht => heq ▸ hfirst t ht, hrest⟩
    · next hlt hne =>
      refine List.pairwise_cons.mpr ⟨fun t ht => ?_, ih hrest⟩
      rcases mem_placeStep ht with rfl | ht
      · omega
      · exact hfirst t ht

/-- A step that is placed is the one with its number, and changes no other. -/
theorem find?_placeStep (h : Ascends steps) (s : OrchestrationStep) (n : Int) :
    (placeStep s steps).find? (fun t => t.order == n) =
      if s.order = n then some s else steps.find? fun t => t.order == n := by
  induction steps with
  | nil => by_cases hn : s.order = n <;> simp [placeStep, hn]
  | cons first rest ih =>
    have ih := ih (List.pairwise_cons.mp h).2
    unfold placeStep
    split
    · by_cases hn : s.order = n <;> simp [hn]
    split
    · next heq => by_cases hn : s.order = n <;> simp [hn, ← heq]
    · next hlt hne =>
      rw [List.find?_cons, List.find?_cons, ih]
      by_cases hn : s.order = n
      · have : (first.order == n) = false := by simpa [← hn] using Ne.symm hne
        simp [hn, this]
      · simp [hn]

theorem ascends_foldl_placeStep (h : Ascends steps) (news : List OrchestrationStep) :
    Ascends (news.foldl (fun steps s => placeStep s steps) steps) := by
  induction news generalizing steps with
  | nil => exact h
  | cons s news ih => exact ih (h.placeStep s)

theorem find?_foldl_placeStep (h : Ascends steps) (news : List OrchestrationStep) (n : Int) :
    (news.foldl (fun steps s => placeStep s steps) steps).find? (fun t => t.order == n) =
      ((news.filter fun t => t.order == n).getLast?).or (steps.find? fun t => t.order == n) := by
  induction news generalizing steps with
  | nil => rfl
  | cons s news ih =>
    rw [List.foldl_cons, ih (h.placeStep s), find?_placeStep h]
    by_cases hn : s.order = n
    · rw [if_pos hn, List.filter_cons_of_pos (by simpa using hn), List.getLast?_cons]
      cases (news.filter fun t => t.order == n).getLast? <;> rfl
    · rw [if_neg hn, List.filter_cons_of_neg (by simpa using hn)]

/-- Layered steps ascend, whatever they were made of. -/
theorem ascends_layerSteps (base derived : List OrchestrationStep) :
    Ascends (layerSteps base derived) := ascends_foldl_placeStep List.Pairwise.nil _

/-- **Of each number the last step is left.** -/
theorem layers_layerSteps {all base : List OrchestrationStep}
    (h : Layers OrchestrationStep.order later all base) (derived : List OrchestrationStep) :
    Layers OrchestrationStep.order later (all ++ derived) (layerSteps base derived) where
  nodup := (ascends_layerSteps base derived).nodup
  find?_eq n := by
    rw [laid?_last, h.getLast?_filter_append, layerSteps,
      find?_foldl_placeStep List.Pairwise.nil, List.filter_append, List.getLast?_append,
      filter_eq_toList_find? h.nodup, List.find?_nil, Option.or_none]
    cases base.find? fun t => t.order == n <;> rfl

/-! ### Several definitions -/

section Several

variable {α κ : Type} [BEq κ] [LawfulBEq κ] {key : α → κ} {op : List α → List α → List α}
  {lists : List (List α)} {result : List α}

/-- **The list of several definitions holds, for each key, the last item.** -/
theorem layers_laid?
    (hop : ∀ all base derived : List α, Layers key later all base →
      (derived.map key).Nodup → Layers key later (all ++ derived) (op base derived))
    (hlists : ∀ list ∈ lists, (list.map key).Nodup) (h : laid? op lists = some result) :
    Layers key later lists.flatten result := by
  refine laid?_induction (Q := fun list => (list.map key).Nodup)
    (P := fun lists result => Layers key later lists.flatten result) ?_ ?_ hlists h
  · intro list hlist
    simpa using Layers.of_nodup _ hlist
  · intro lists base derived hbase hderived
    simpa using hop _ base derived hbase hderived

/-- Its keys stay in the order in which they came. -/
theorem keys_laid?
    (hop : ∀ base derived : List α, (base.map key).Nodup → (derived.map key).Nodup →
      (op base derived).map key = addAllNew (base.map key) (derived.map key))
    (hlists : ∀ list ∈ lists, (list.map key).Nodup) (h : laid? op lists = some result) :
    result.map key = distinct (lists.flatten.map key) := by
  refine laid?_induction (Q := fun list => (list.map key).Nodup)
    (P := fun lists result => result.map key = distinct (lists.flatten.map key)) ?_ ?_ hlists h
  · intro list hlist
    simpa using (distinct_eq_self hlist).symm
  · intro lists base derived hbase hderived
    have hnodup : (base.map key).Nodup := hbase ▸ nodup_addAllNew List.nodup_nil _
    rw [hop base derived hnodup hderived, hbase, List.flatten_append, List.map_append, distinct,
      ← addAllNew_append]
    simp [distinct]

end Several

end TrustFramework
