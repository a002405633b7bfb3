import TrustFramework.Entity.Store
import TrustFramework.Proofs.Entity.Agreement
import TrustFramework.Proofs.Entity.Layered
import TrustFramework.Proofs.Inheritance.Cycles
import TrustFramework.Proofs.Union

/-!
# Layers in any grouping

Versions may be laid onto each other from the bottom to the top, or the upper ones first and what
they amount to onto the lower ones.  It comes to the same, in each of the ways in which the parts
of a definition are laid onto each other, and whatever these parts hold: claims that are referred
to twice, steps out of order, texts that are repeated.  So the versions of a profile can be folded
before they are laid onto the profile that is included.

## Main definitions

* `Kind.Body`, `Kind.NamesOnce` — what a definition of a kind says, with no name twice in fields.

## Main results

* `layerClaims_assoc`, `layerSteps_assoc`, `layerTexts_assoc`, `layerList_assoc`,
  `Fields.update_assoc` — the parts of a definition.
* `Kind.layer_assoc` — **layering is associative**, for definitions of every kind.
* `layers_in_any_grouping` — the same for versions, and for versions that are folded first.
-/

namespace TrustFramework

/-! ### Claims -/

/-- The references of a base, each overridden, and behind them those to claims that are new. -/
theorem layerClaims_eq (base derived : List ClaimReference) :
    layerClaims base derived = base.map (ClaimReference.overriddenBy derived) ++
      derived.filter fun d => !(base.map ClaimReference.claimType).contains d.claimType := by
  unfold layerClaims
  congr 1
  refine List.filter_congr fun d _ => congrArg _ ?_
  rw [Bool.eq_iff_iff]
  simp

theorem contains_claimType_layerClaims (base derived : List ClaimReference) (claim : String) :
    ((layerClaims base derived).map ClaimReference.claimType).contains claim =
      ((base.map ClaimReference.claimType).contains claim ||
        (derived.map ClaimReference.claimType).contains claim) := by
  have hbase : (base.map (ClaimReference.overriddenBy derived)).map ClaimReference.claimType =
      base.map ClaimReference.claimType := by
    simp only [List.map_map, Function.comp_def, ClaimReference.claimType_overriddenBy]
  rw [layerClaims_eq, List.map_append, hbase, Bool.eq_iff_iff]
  simp only [List.contains_iff_mem, List.mem_append, Bool.or_eq_true, List.mem_map,
    List.mem_filter]
  grind

/-- The references to a claim, of which those that are new count if the base has none. -/
theorem filter_layerClaims (base derived : List ClaimReference) (claim : String) :
    (layerClaims base derived).filter (fun d => d.claimType == claim) =
      (base.filter fun d => d.claimType == claim).map (ClaimReference.overriddenBy derived) ++
        if (base.map ClaimReference.claimType).contains claim then []
        else derived.filter fun d => d.claimType == claim := by
  have hkept : (base.map (ClaimReference.overriddenBy derived)).filter
      (fun d => d.claimType == claim) =
        (base.filter fun d => d.claimType == claim).map (ClaimReference.overriddenBy derived) := by
    simp only [List.filter_map, Function.comp_def, ClaimReference.claimType_overriddenBy]
  rw [layerClaims_eq, List.filter_append, hkept, List.filter_filter]
  congr 1
  split
  · next hclaim =>
    refine List.filter_eq_nil_iff.mpr fun d _ hd => ?_
    rw [Bool.and_eq_true, beq_iff_eq] at hd
    rw [hd.1, hclaim] at hd
    exact absurd hd.2 (by decide)
  · next hclaim =>
    refine List.filter_congr fun d _ => ?_
    by_cases hd : d.claimType = claim <;> simp_all

/-- What overrides a reference twice overrides it at once. -/
theorem overriddenBy_layerClaims (base derived : List ClaimReference) (c : ClaimReference) :
    c.overriddenBy (layerClaims base derived) = (c.overriddenBy base).overriddenBy derived := by
  rw [ClaimReference.overriddenBy_eq (layerClaims base derived), filter_layerClaims,
    List.getLast?_append, List.getLast?_map, ClaimReference.overriddenBy_eq base]
  cases hbase : (base.filter fun d => d.claimType == c.claimType).getLast? with
  | some d =>
    -- the base refers to the claim, so that no reference to it is new
    have hmem := List.mem_filter.mp (List.mem_of_getLast? hbase)
    have hclaim : (base.map ClaimReference.claimType).contains c.claimType = true :=
      List.contains_iff_mem.mpr (List.mem_map.mpr ⟨d, hmem.1, by simpa using hmem.2⟩)
    rw [if_pos hclaim]
    rfl
  | none =>
    have hclaim : ¬ (base.map ClaimReference.claimType).contains c.claimType = true := by
      simpa using hbase
    rw [if_neg hclaim, Option.map_none, Option.or_none, Option.getD_none,
      ClaimReference.overriddenBy_eq derived]

theorem layerClaims_assoc (a b c : List ClaimReference) :
    layerClaims (layerClaims a b) c = layerClaims a (layerClaims b c) := by
  have hover : a.map (ClaimReference.overriddenBy (layerClaims b c)) =
      (a.map (ClaimReference.overriddenBy b)).map (ClaimReference.overriddenBy c) := by
    rw [List.map_map]
    exact List.map_congr_left fun x _ => overriddenBy_layerClaims b c x
  have hkept : (b.map (ClaimReference.overriddenBy c)).filter
      (fun d => !(a.map ClaimReference.claimType).contains d.claimType) =
        (b.filter fun d => !(a.map ClaimReference.claimType).contains d.claimType).map
          (ClaimReference.overriddenBy c) := by
    simp only [List.filter_map, Function.comp_def, ClaimReference.claimType_overriddenBy]
  have hnew : (c.filter fun d =>
      !((layerClaims a b).map ClaimReference.claimType).contains d.claimType) =
        (c.filter fun d => !(b.map ClaimReference.claimType).contains d.claimType).filter
          fun d => !(a.map ClaimReference.claimType).contains d.claimType := by
    simp only [contains_claimType_layerClaims, Bool.not_or, List.filter_filter]
  rw [layerClaims_eq (layerClaims a b), hnew, layerClaims_eq a (layerClaims b c), hover,
    layerClaims_eq a b, layerClaims_eq b c, List.map_append, List.filter_append, hkept,
    List.append_assoc]

/-! ### Steps -/

/-- Steps that ascend are known by the step of each number. -/
theorem eq_of_ascends {steps others : List OrchestrationStep} (hs : Ascends steps)
    (ho : Ascends others)
    (h : ∀ n, steps.find? (fun s => s.order == n) = others.find? fun s => s.order == n) :
    steps = others := by
  have hmem : ∀ (list : List OrchestrationStep) (n : Int),
      n ∈ list.map OrchestrationStep.order ↔ (list.find? fun s => s.order == n).isSome := by
    simp
  refine eq_of_find?_eq hs.nodup (map_order_eq_of_ascends ho hs fun n => ?_) h
  rw [hmem, hmem, h]

theorem find?_layerSteps (base derived : List OrchestrationStep) (n : Int) :
    (layerSteps base derived).find? (fun s => s.order == n) =
      ((base ++ derived).filter fun s => s.order == n).getLast? := by
  rw [layerSteps, find?_foldl_placeStep List.Pairwise.nil, List.find?_nil, Option.or_none]

theorem layerSteps_assoc (a b c : List OrchestrationStep) :
    layerSteps (layerSteps a b) c = layerSteps a (layerSteps b c) := by
  refine eq_of_ascends (ascends_layerSteps _ _) (ascends_layerSteps _ _) fun n => ?_
  have hlayered : ∀ base derived : List OrchestrationStep,
      ((layerSteps base derived).filter fun s => s.order == n).getLast? =
        ((base ++ derived).filter fun s => s.order == n).getLast? := by
    intro base derived
    rw [filter_eq_toList_find? (ascends_layerSteps base derived).nodup, find?_layerSteps]
    cases ((base ++ derived).filter fun s => s.order == n).getLast? <;> rfl
  simp only [find?_layerSteps, List.filter_append, List.getLast?_append, hlayered, Option.or_assoc]

/-! ### Texts and other lists -/

theorem layerTexts_assoc (a b c : List String) :
    layerTexts (layerTexts a b) c = layerTexts a (layerTexts b c) := by
  have hself : distinct (distinct (a ++ b)) = distinct (a ++ b) :=
    distinct_eq_self (nodup_addAllNew List.nodup_nil _)
  calc distinct (distinct (a ++ b) ++ c)
      = addAllNew (distinct (distinct (a ++ b))) c := addAllNew_append [] _ c
    _ = distinct (a ++ b ++ c) := by rw [hself]; exact (addAllNew_append [] _ c).symm
    _ = addAllNew (distinct a) (b ++ c) := by rw [List.append_assoc]; exact addAllNew_append [] a _
    _ = addAllNew (distinct a) (distinct (b ++ c)) := (addAllNew_distinct _ _).symm
    _ = distinct (a ++ distinct (b ++ c)) := (addAllNew_append [] a _).symm

theorem layerList_assoc {α : Type} (a b c : List α) :
    layerList (layerList a b) c = layerList a (layerList b c) := by
  cases c with
  | nil => rfl
  | cons x c => rfl

/-! ### Fields -/

namespace Fields

variable {α : Type}

theorem set_set_self (fields : Fields α) (name : String) (v w : α) :
    (fields.set name v).set name w = fields.set name w := by
  induction fields with
  | nil => simp [set]
  | cons entry fields ih =>
    by_cases h : entry.1 = name <;> simp [set, h, ih]

/-- A name that is there can be set before another one. -/
theorem set_set_of_ne {fields : Fields α} {name other : String} (h : other ≠ name)
    (hhas : fields.has name = true) (v w : α) :
    (fields.set other w).set name v = (fields.set name v).set other w := by
  induction fields with
  | nil => cases hhas
  | cons entry fields ih =>
    obtain ⟨n, x⟩ := entry
    by_cases hn : n = name
    · subst hn
      simp [set, Ne.symm h]
    · by_cases ho : n = other
      · subst ho
        simp [set, hn]
      · have hrest : has fields name = true := by simpa [has, hn] using hhas
        simp [set, hn, ho, ih hrest]

theorem has_set_self (fields : Fields α) (name : String) (v : α) :
    (fields.set name v).has name = true := by
  rw [has_eq_isSome, get?_set_self]
  rfl

theorem has_set_of_has {fields : Fields α} {name : String} (h : fields.has name = true)
    (other : String) (v : α) : (fields.set other v).has name = true := by
  by_cases hother : name = other
  · rw [hother, has_set_self]
  · rw [has_eq_isSome, get?_set_of_ne _ _ hother, ← has_eq_isSome, h]

/-- A name that is there, and not among what is new, can be set before that. -/
theorem set_update_of_not_mem {fields news : Fields α} {name : String}
    (hhas : fields.has name = true) (hnews : name ∉ news.names) (v : α) :
    (fields.update news).set name v = (fields.set name v).update news := by
  unfold update
  induction news generalizing fields with
  | nil => rfl
  | cons entry news ih =>
    obtain ⟨hne, hnews⟩ := List.ne_and_not_mem_of_not_mem_cons hnews
    rw [List.foldl_cons, List.foldl_cons, ih (has_set_of_has hhas _ _) hnews,
      set_set_of_ne hne.symm hhas]

/-- What is set in an update is set in what is updated. -/
theorem update_set (fields : Fields α) {news : Fields α} (h : news.names.Nodup) (name : String)
    (v : α) : fields.update (news.set name v) = (fields.update news).set name v := by
  induction news generalizing fields with
  | nil => rfl
  | cons entry news ih =>
    obtain ⟨n, w⟩ := entry
    obtain ⟨hn, hrest⟩ := List.nodup_cons.mp h
    have hcons : ∀ (x : α) (rest : Fields α),
        fields.update ((n, x) :: rest) = (fields.set n x).update rest := fun _ _ => rfl
    by_cases hname : n = name
    · subst hname
      rw [set, if_pos rfl, hcons, hcons, set_update_of_not_mem (has_set_self _ _ _) hn,
        set_set_self]
    · rw [set, if_neg hname, hcons, hcons, ih _ hrest]

theorem update_assoc (a c : Fields α) {b : Fields α} (hb : b.names.Nodup) :
    (a.update b).update c = a.update (b.update c) := by
  induction c generalizing b with
  | nil => rfl
  | cons entry c ih =>
    calc (a.update b).update (entry :: c)
        = ((a.update b).set entry.1 entry.2).update c := rfl
      _ = (a.update (b.set entry.1 entry.2)).update c := by rw [update_set a hb]
      _ = a.update ((b.set entry.1 entry.2).update c) := ih (nodup_names_set hb _ _)

end Fields

/-! ### Definitions -/

section Definitions

open Definition (layer)

theorem ClaimType.layer_assoc (a b c : ClaimType) :
    layer (layer a b) c = layer a (layer b c) := by
  simp only [layer, Option.orElse_eq_orElse, Option.orElse_eq_or, Option.or_assoc]

theorem ClaimsTransformation.layer_assoc (a b c : ClaimsTransformation) :
    layer (layer a b) c = layer a (layer b c) := by
  simp only [layer, Option.orElse_eq_orElse, Option.orElse_eq_or, Option.or_assoc,
    layerClaims_assoc, layerList_assoc]

theorem DisplayControl.layer_assoc (a b c : DisplayControl) :
    layer (layer a b) c = layer a (layer b c) := by
  simp only [layer, Option.orElse_eq_orElse, Option.orElse_eq_or, Option.or_assoc,
    layerClaims_assoc, layerList_assoc]

theorem ClaimsProvider.layer_assoc (a b c : ClaimsProvider) :
    layer (layer a b) c = layer a (layer b c) := by
  simp only [layer, Option.orElse_eq_orElse, Option.orElse_eq_or, Option.or_assoc,
    layerTexts_assoc]

theorem UserJourney.layer_assoc (a b c : UserJourney) :
    layer (layer a b) c = layer a (layer b c) := by
  simp only [layer, Option.orElse_eq_orElse, Option.orElse_eq_or, Option.or_assoc,
    layerSteps_assoc]

theorem SubJourney.layer_assoc (a b c : SubJourney) :
    layer (layer a b) c = layer a (layer b c) := by
  simp only [layer, Option.orElse_eq_orElse, Option.orElse_eq_or, Option.or_assoc,
    layerSteps_assoc]

theorem TechnicalProfile.layer_assoc (a c : TechnicalProfile) {b : TechnicalProfile}
    (hb : b.metadata.names.Nodup) : layer (layer a b) c = layer a (layer b c) := by
  simp only [layer, Option.orElse_eq_orElse, Option.orElse_eq_or, Option.or_assoc,
    layerClaims_assoc, layerTexts_assoc, Fields.update_assoc _ _ hb]

end Definitions

namespace Kind

/-- What a definition of a kind says. -/
def Body : Kind → Type
  | claimTypes => ClaimType
  | technicalProfiles => TechnicalProfile
  | claimsTransformations => ClaimsTransformation
  | displayControls => DisplayControl
  | userJourneys => UserJourney
  | subJourneys => SubJourney
  | claimsProviders => ClaimsProvider

instance : (kind : Kind) → Definition kind.Body
  | claimTypes => inferInstanceAs (Definition ClaimType)
  | technicalProfiles => inferInstanceAs (Definition TechnicalProfile)
  | claimsTransformations => inferInstanceAs (Definition ClaimsTransformation)
  | displayControls => inferInstanceAs (Definition DisplayControl)
  | userJourneys => inferInstanceAs (Definition UserJourney)
  | subJourneys => inferInstanceAs (Definition SubJourney)
  | claimsProviders => inferInstanceAs (Definition ClaimsProvider)

/-- No name comes twice in fields, which of all definitions only profiles have. -/
def NamesOnce : (kind : Kind) → kind.Body → Prop
  | technicalProfiles, profile => profile.metadata.names.Nodup
  | _, _ => True

/-- **Layering definitions is associative.** -/
theorem layer_assoc (kind : Kind) (a c : kind.Body) {b : kind.Body} (hb : kind.NamesOnce b) :
    Definition.layer (Definition.layer a b) c = Definition.layer a (Definition.layer b c) :=
  match kind with
  | claimTypes => ClaimType.layer_assoc a b c
  | technicalProfiles => TechnicalProfile.layer_assoc a c hb
  | claimsTransformations => ClaimsTransformation.layer_assoc a b c
  | displayControls => DisplayControl.layer_assoc a b c
  | userJourneys => UserJourney.layer_assoc a b c
  | subJourneys => SubJourney.layer_assoc a b c
  | claimsProviders => ClaimsProvider.layer_assoc a b c

theorem NamesOnce.layer {kind : Kind} {base : kind.Body} (h : kind.NamesOnce base)
    (derived : kind.Body) : kind.NamesOnce (Definition.layer base derived) :=
  match kind with
  | technicalProfiles => Fields.nodup_names_update h
  | claimTypes | claimsTransformations | displayControls | userJourneys | subJourneys
  | claimsProviders => trivial

end Kind

/-! ### Versions -/

namespace Version

variable {kind : Kind}

theorem layer_assoc (a c : Version kind.Body) {b : Version kind.Body}
    (hb : kind.NamesOnce b.body) : (a.layer b).layer c = a.layer (b.layer c) := by
  simp only [layer, kind.layer_assoc a.body c.body hb]

/-- Versions laid onto a base one after the other, or first onto each other. -/
theorem foldl_layer (base : Version kind.Body) {first : Version kind.Body}
    {rest : List (Version kind.Body)} (hfirst : kind.NamesOnce first.body) :
    rest.foldl layer (base.layer first) = base.layer (rest.foldl layer first) := by
  induction rest generalizing first with
  | nil => rfl
  | cons v rest ih =>
    rw [List.foldl_cons, List.foldl_cons, layer_assoc base v hfirst, ih (hfirst.layer v.body)]

end Version

/-- **Layers may be grouped in any way.**  Of three versions of a thing the upper two can be laid
onto each other first; and all versions of a thing can be folded before they are laid onto another
one. -/
theorem layers_in_any_grouping (kind : Kind) :
    (∀ a b c : Version kind.Body, kind.NamesOnce b.body →
      (a.layer b).layer c = a.layer (b.layer c)) ∧
    ∀ (base own : Version kind.Body) (versions : List (Version kind.Body)),
      (∀ v ∈ versions, kind.NamesOnce v.body) → folded? versions = some own →
        (byDepth versions).foldl Version.layer base = base.layer own := by
  refine ⟨fun a b c hb => Version.layer_assoc a c hb, fun base own versions hversions hfold => ?_⟩
  unfold folded? at hfold
  split at hfold
  · cases hfold
  · next first rest hdepth =>
    obtain rfl := Option.some.inj hfold
    have hfirst : first ∈ versions := List.mem_mergeSort.mp (hdepth ▸ List.mem_cons_self)
    rw [hdepth, List.foldl_cons]
    exact Version.foldl_layer base (hversions first hfirst)

/-- A version of a profile with metadata, that returns claims under the number of its depth. -/
def Profiles.telling (depth : Int) (metadata : Fields String) (claims : List String) :
    Version TechnicalProfile :=
  let v := bareVersion "A" depth none
  let outputClaims := claims.map fun claim =>
    { claimType := claim, partnerClaimType := some (toString depth) }
  { v with body := { v.body with metadata, outputClaims } }

/-- Three versions that say some things several times, and one another's things again. -/
theorem layers_in_any_grouping_repeated :
    let a := Profiles.telling 0 [("x", "1"), ("y", "2")] ["name", "name"]
    let b := Profiles.telling 1 [("y", "3"), ("z", "4")] ["name", "email", "name"]
    let c := Profiles.telling 2 [("z", "5"), ("x", "6")] ["city", "email", "city"]
    b.body.metadata.names.Nodup ∧ (a.layer b).layer c = a.layer (b.layer c) ∧
      folded? [c, b] = some (b.layer c) ∧
        (byDepth [c, b]).foldl Version.layer a = a.layer (b.layer c) := by
  intro a b c
  have hb : b.body.metadata.names.Nodup := by decide
  have hc : c.body.metadata.names.Nodup := by decide
  have hfold : folded? [c, b] = some (b.layer c) := by cbv
  have hversions : ∀ v ∈ [c, b], v.body.metadata.names.Nodup :=
    List.forall_mem_cons.mpr ⟨hc, List.forall_mem_singleton.mpr hb⟩
  obtain ⟨hassoc, hfolded⟩ := layers_in_any_grouping .technicalProfiles
  exact ⟨hb, hassoc a b c hb, hfold, hfolded a (b.layer c) [c, b] hversions hfold⟩

end TrustFramework
