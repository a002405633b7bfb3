import TrustFramework.Proofs.Consolidation
import TrustFramework.Proofs.Entity.Layered
import TrustFramework.Proofs.Inheritance.Resolved
import TrustFramework.Proofs.Sorting
import TrustFramework.Proofs.Union

/-!
# Looking up what a profile amounts to

A profile amounts to its versions, laid onto each other by their depths, on top of what the
profile it includes amounts to.  What comes of this can be read off for each part of a profile: a
text, the metadata of a name and the reference to a claim are those of the most derived version
that has them, and where no version has them, those of the included profile.  Claims keep their
order: first those of the included profile, then those that the versions add.

## Main definitions

* `IsMostDerived` — the most derived of some versions of which something holds.
* `IsInherited` — a definition has what the most derived version that has it has, or else what
  its base has.
* `TechnicalProfile.IsLookup` — parts of a profile that are laid onto each other as a whole.
* `TechnicalProfile.IsLaidOnto` — a profile is some versions on top of a base.

## Main results

* `isMostDerived_of_getLast?` — the last version by depth is the most derived one.
* `isInherited_of_folded?` — what versions laid onto each other have.
* `TechnicalProfile.IsLaidOnto.of_folded?`, `TechnicalProfile.IsLaidOnto.layer` — versions, and
  versions on top of a base.
* `consolidated_profile_isLaidOnto` — **what a profile in a resolved store amounts to.**
-/

namespace TrustFramework

variable {α β : Type}

/-! ### The most derived version -/

/-- The most derived of some versions of which something holds: it is as deep as those before it
at least, and deeper than those after it. -/
def IsMostDerived (has : Version α → Prop) (versions : List (Version α)) (w : Version α) : Prop :=
  has w ∧ ∃ before after, versions = before ++ w :: after ∧
    (∀ v ∈ before, has v → v.depth ≤ w.depth) ∧ ∀ v ∈ after, has v → v.depth < w.depth

theorem mem_byDepth {versions : List (Version α)} {v : Version α} :
    v ∈ byDepth versions ↔ v ∈ versions := List.mem_mergeSort

theorem pairwise_byDepth (versions : List (Version α)) :
    (byDepth versions).Pairwise fun v w => v.depth ≤ w.depth :=
  pairwise_le_mergeSort Version.depth versions

/-- Versions of one depth stay as they stand. -/
theorem filter_byDepth {p : Version α → Bool} {d : Int} (hp : ∀ v, p v = true → v.depth = d)
    (versions : List (Version α)) : (byDepth versions).filter p = versions.filter p :=
  filter_mergeSort_of_eq Version.depth hp versions

/-- The last of some items of a kind, where it stands. -/
theorem exists_of_getLast?_filter {p : β → Bool} {items : List β} {x : β}
    (h : (items.filter p).getLast? = some x) :
    p x = true ∧ ∃ before after, items = before ++ x :: after ∧ ∀ y ∈ after, p y = false := by
  rw [← List.head?_reverse, ← List.filter_reverse, List.head?_filter] at h
  obtain ⟨hx, after, before, hitems, hafter⟩ := List.find?_eq_some_iff_append.mp h
  refine ⟨hx, before.reverse, after.reverse, ?_, fun y hy => ?_⟩
  · rw [← List.reverse_reverse items, hitems]
    simp
  · simpa using hafter y (List.mem_reverse.mp hy)

/-- **The last version by depth is the most derived one.** -/
theorem isMostDerived_of_getLast? {has : Version α → Bool} {versions : List (Version α)}
    {w : Version α} (h : ((byDepth versions).filter has).getLast? = some w) :
    IsMostDerived (fun v => has v = true) versions w := by
  have hw : has w = true := (List.mem_filter.mp (List.mem_of_getLast? h)).2
  obtain ⟨front, hfront⟩ := List.getLast?_eq_some_iff.mp h
  have hmax : ∀ v ∈ versions, has v = true → v.depth ≤ w.depth := by
    intro v hv hhas
    have hmem : v ∈ front ++ [w] :=
      hfront ▸ List.mem_filter.mpr ⟨mem_byDepth.mpr hv, hhas⟩
    have hsorted : (front ++ [w]).Pairwise fun v w => v.depth ≤ w.depth :=
      hfront ▸ (pairwise_byDepth versions).filter has
    rcases List.mem_append.mp hmem with hmem | hmem
    · exact (List.pairwise_append.mp hsorted).2.2 v hmem w (List.mem_singleton_self w)
    · rw [List.mem_singleton.mp hmem]
  -- among those of its depth it is the last one already before they are sorted
  have hlevel : (versions.filter fun v => decide (v.depth = w.depth) && has v).getLast? =
      some w := by
    rw [← filter_byDepth (d := w.depth) (fun v hv => by simp_all), ← List.filter_filter, hfront,
      List.filter_append]
    simp
  obtain ⟨-, before, after, hversions, hafter⟩ := exists_of_getLast?_filter hlevel
  refine ⟨hw, before, after, hversions, fun v hv => ?_, fun v hv hhas => ?_⟩
  · exact hmax v (by simp [hversions, hv])
  · have hle := hmax v (by simp [hversions, hv]) hhas
    have hne : v.depth ≠ w.depth := by simpa [hhas] using hafter v hv
    omega

/-! ### What versions have -/

/-- What a definition has is what the most derived of some versions that has it has, or, where
none has it, what its base has. -/
def IsInherited (f : α → Option β) (base : Option α) (versions : List (Version α)) (x : α) :
    Prop :=
  (∃ w, IsMostDerived (fun v => (f v.body).isSome = true) versions w ∧ f x = f w.body) ∨
    (∀ v ∈ versions, f v.body = none) ∧ f x = base.bind f

section Inherited

variable {f : α → Option β} {versions : List (Version α)} {x y : α}

theorem IsInherited.congr {base base' : Option α} (h : IsInherited f base versions x)
    (hx : f y = f x) (hbase : base'.bind f = base.bind f) : IsInherited f base' versions y := by
  rcases h with ⟨w, hw, heq⟩ | ⟨hnone, heq⟩
  · exact Or.inl ⟨w, hw, hx.trans heq⟩
  · exact Or.inr ⟨hnone, (hx.trans heq).trans hbase.symm⟩

/-- What versions have without a base, they have on top of one, and then the base has the
rest. -/
theorem IsInherited.on {base : α} (h : IsInherited f none versions x)
    (hy : f y = (f x <|> f base)) : IsInherited f (some base) versions y := by
  rcases h with ⟨w, hw, heq⟩ | ⟨hnone, heq⟩
  · refine Or.inl ⟨w, hw, ?_⟩
    obtain ⟨value, hvalue⟩ := Option.isSome_iff_exists.mp hw.1
    rw [hy, heq, hvalue]
    rfl
  · refine Or.inr ⟨hnone, ?_⟩
    rw [hy, heq]
    rfl

/-- Nothing more is had of itself. -/
theorem IsInherited.self (h : IsInherited f none versions x) :
    IsInherited f (some x) versions x :=
  h.on (by cases f x <;> rfl)

/-- A part of definitions that is laid onto each other as a whole is, after all, that of the last
that has it. -/
theorem laid?_lookup {Q : β → Prop} {γ : Type} {merge : β → β → β} {f : β → Option γ}
    (hQ : ∀ x y, Q x → Q y → Q (merge x y))
    (hf : ∀ x y, Q x → Q y → f (merge x y) = (f y <|> f x)) {items : List β}
    (hitems : ∀ x ∈ items, Q x) {result : β} (h : laid? merge items = some result) :
    Q result ∧ f result = ((items.filter fun x => (f x).isSome).getLast?).bind f := by
  -- one more definition has the part, and is then the last that has it, or leaves it as it was
  refine laid?_induction (Q := Q)
    (P := fun items y => Q y ∧ f y = ((items.filter fun x => (f x).isSome).getLast?).bind f)
    (fun x hx => ⟨hx, ?_⟩) (fun items y x hy hx => ⟨hQ y x hy.1 hx, ?_⟩) hitems h
  · cases hfx : f x <;> simp [hfx]
  · rw [hf y x hy.1 hx, hy.2, List.filter_append, List.getLast?_append]
    cases hfx : f x <;> simp [hfx]

/-- **What versions laid onto each other have.** -/
theorem isInherited_of_folded? [Definition α] {Q : α → Prop}
    (hQ : ∀ x y, Q x → Q y → Q (Definition.layer x y))
    (hf : ∀ x y, Q x → Q y → f (Definition.layer x y) = (f y <|> f x))
    (hversions : ∀ v ∈ versions, Q v.body) {own : Version α} (h : folded? versions = some own) :
    Q own.body ∧ IsInherited f none versions own.body := by
  rw [folded?_eq_laid?_byDepth] at h
  obtain ⟨hown, hlast⟩ := laid?_lookup (Q := fun v => Q v.body) (f := fun v => f v.body)
    (fun v w => hQ v.body w.body) (fun v w => hf v.body w.body)
    (fun v hv => hversions v (mem_byDepth.mp hv)) h
  refine ⟨hown, ?_⟩
  cases hget : ((byDepth versions).filter fun v => (f v.body).isSome).getLast? with
  | some w => exact Or.inl ⟨w, isMostDerived_of_getLast? hget, by rw [hlast, hget]; rfl⟩
  | none =>
    refine Or.inr ⟨fun v hv => ?_, by rw [hlast, hget]; rfl⟩
    have hnone := List.filter_eq_nil_iff.mp (List.getLast?_eq_none_iff.mp hget) v
      (mem_byDepth.mpr hv)
    simpa using hnone

end Inherited

/-! ### Parts of profiles -/

/-- Of names that come once each, the last value is the only one. -/
theorem Fields.last?_eq_get? {fields : Fields α} (h : fields.names.Nodup) (name : String) :
    last? fields name = fields.get? name := by
  induction fields with
  | nil => rfl
  | cons entry rest ih =>
    obtain ⟨n, value⟩ := entry
    obtain ⟨hn, hrest⟩ := List.nodup_cons.mp h
    rw [last?_cons, ih hrest]
    by_cases heq : n = name
    · subst heq
      rw [get?_eq_none_iff.mpr hn]
      simp [get?]
    · simp [get?, heq]

namespace TechnicalProfile

/-- The texts of a profile, apart from what identifies it. -/
def scalars : List (TechnicalProfile → Option String) :=
  [displayName, description, protocolName, protocolHandler, providerName, claimsProvider,
    includes, sessionProfile]

/-- The lists of claims of a profile. -/
def claimLists : List (TechnicalProfile → List ClaimReference) :=
  [inputClaims, displayClaims, persistedClaims, outputClaims]

/-- The metadata of a profile has each name once, and each list of claims has each claim once. -/
structure NamesOnce (p : TechnicalProfile) : Prop where
  metadata : p.metadata.names.Nodup
  claims : ∀ claims ∈ claimLists, ((claims p).map ClaimReference.claimType).Nodup

instance (p : TechnicalProfile) : Decidable p.NamesOnce :=
  decidable_of_iff (p.metadata.names.Nodup ∧
      ∀ claims ∈ claimLists, ((claims p).map ClaimReference.claimType).Nodup)
    ⟨fun h => ⟨h.1, h.2⟩, fun h => ⟨h.metadata, h.claims⟩⟩

theorem claims_bare {claims : TechnicalProfile → List ClaimReference} (h : claims ∈ claimLists)
    (p : TechnicalProfile) : claims p.bare = claims p := by
  simp only [claimLists, List.mem_cons, List.not_mem_nil, or_false] at h
  rcases h with rfl | rfl | rfl | rfl <;> rfl

theorem claims_layer {claims : TechnicalProfile → List ClaimReference} (h : claims ∈ claimLists)
    (base derived : TechnicalProfile) :
    claims (Definition.layer base derived) = layerClaims (claims base) (claims derived) := by
  simp only [claimLists, List.mem_cons, List.not_mem_nil, or_false] at h
  rcases h with rfl | rfl | rfl | rfl <;> rfl

theorem NamesOnce.layer {base derived : TechnicalProfile} (hbase : base.NamesOnce)
    (hderived : derived.NamesOnce) :
    NamesOnce (Definition.layer base derived) where
  metadata := by
    have hmetadata : (Definition.layer base derived).metadata =
        base.metadata.update derived.metadata := rfl
    rw [hmetadata, Fields.names_update]
    exact nodup_addAllNew hbase.metadata _
  claims claims h := by
    rw [claims_layer h, map_layerClaims _ (hderived.claims claims h)]
    exact nodup_addAllNew (hbase.claims claims h) _

/-- Parts of a profile that do not depend on its ancestors, and that a derived profile either has
or leaves to its base. -/
structure IsLookup (f : TechnicalProfile → Option β) : Prop where
  bare : ∀ p, f p.bare = f p
  layer : ∀ base derived : TechnicalProfile, base.NamesOnce → derived.NamesOnce →
    f (Definition.layer base derived) = (f derived <|> f base)

theorem isLookup_of_mem_scalars {f : TechnicalProfile → Option String} (h : f ∈ scalars) :
    IsLookup f := by
  simp only [scalars, List.mem_cons, List.not_mem_nil, or_false] at h
  rcases h with rfl | rfl | rfl | rfl | rfl | rfl | rfl | rfl <;>
    exact ⟨fun _ => rfl, fun _ _ _ _ => rfl⟩

theorem isLookup_metadata (name : String) :
    IsLookup fun p => Fields.get? p.metadata name where
  bare _ := rfl
  layer base derived _ hderived := by
    have hmetadata : (Definition.layer base derived).metadata =
        base.metadata.update derived.metadata := rfl
    rw [hmetadata, Fields.get?_update, Fields.last?_eq_get? hderived.metadata]
    cases Fields.get? derived.metadata name <;> rfl

/-- The reference to a claim in a list. -/
theorem isLookup_claim {claims : TechnicalProfile → List ClaimReference} (h : claims ∈ claimLists)
    (claim : String) :
    IsLookup fun p => (claims p).find? fun c => c.claimType == claim where
  bare p := by rw [claims_bare h]
  layer base derived hbase hderived := by
    have hlayers := layers_layerClaims (Layers.of_nodup later (hbase.claims claims h))
      (hderived.claims claims h)
    rw [claims_layer h, hlayers.find?_eq_getLast?,
      (Layers.of_nodup later (hbase.claims claims h)).getLast?_filter_append,
      filter_eq_toList_find? (hderived.claims claims h)]
    cases (claims derived).find? fun c => c.claimType == claim <;> rfl

/-- A profile is some versions, laid onto each other by depth, on top of a base: of each part it
has what the most derived version has or else the base, and its claims are those of the base
followed by those that the versions add, once each. -/
structure IsLaidOnto (base : Option TechnicalProfile) (versions : List (Version TechnicalProfile))
    (p : TechnicalProfile) : Prop where
  scalar : ∀ f ∈ scalars, IsInherited f base versions p
  metadata : ∀ name, IsInherited (fun p => Fields.get? p.metadata name) base versions p
  claim : ∀ claims ∈ claimLists, ∀ claim,
    IsInherited (fun p => (claims p).find? fun c => c.claimType == claim) base versions p
  claimTypes : ∀ claims ∈ claimLists, (claims p).map ClaimReference.claimType =
    addAllNew (((base.map claims).getD []).map ClaimReference.claimType)
      ((byDepth versions).flatMap fun v => (claims v.body).map ClaimReference.claimType)
  nodup : ∀ claims ∈ claimLists, ((claims p).map ClaimReference.claimType).Nodup

variable {versions : List (Version TechnicalProfile)} {p : TechnicalProfile}

/-- A view that does not see ancestors sees the same of profiles that differ in nothing else. -/
theorem map_eq_of_map_bare_eq {γ : Type} {f : TechnicalProfile → γ} (hf : ∀ p, f p.bare = f p)
    {base base' : Option TechnicalProfile} (h : base'.map bare = base.map bare) :
    base'.map f = base.map f := by
  have hbare (base : Option TechnicalProfile) : base.map f = (base.map bare).map f := by
    rw [Option.map_map]
    exact congrArg (Option.map · base) (funext fun p => (hf p).symm)
  rw [hbare base', h, ← hbare base]

theorem IsLaidOnto.congr {base base' : Option TechnicalProfile} {p' : TechnicalProfile}
    (h : IsLaidOnto base versions p) (hp : p'.bare = p.bare)
    (hbase : base'.map bare = base.map bare) : IsLaidOnto base' versions p' := by
  have hview {γ : Type} {f : TechnicalProfile → γ} (hf : ∀ p : TechnicalProfile, f p.bare = f p) :
      f p' = f p := by rw [← hf p', hp, hf]
  have hlookup {γ : Type} {f : TechnicalProfile → Option γ} (hf : IsLookup f)
      (hinherited : IsInherited f base versions p) : IsInherited f base' versions p' := by
    have hbind (base : Option TechnicalProfile) : base.bind f = (base.map f).join := by
      cases base <;> rfl
    refine hinherited.congr (hview hf.bare) ?_
    rw [hbind, hbind, map_eq_of_map_bare_eq hf.bare hbase]
  refine ⟨fun f hf => ?_, fun name => ?_, fun claims hclaims claim => ?_, fun claims hclaims => ?_,
    fun claims hclaims => ?_⟩
  · exact hlookup (isLookup_of_mem_scalars hf) (h.scalar f hf)
  · exact hlookup (isLookup_metadata name) (h.metadata name)
  · exact hlookup (isLookup_claim hclaims claim) (h.claim claims hclaims claim)
  · rw [hview (claims_bare hclaims), map_eq_of_map_bare_eq (claims_bare hclaims) hbase,
      h.claimTypes claims hclaims]
  · rw [hview (claims_bare hclaims)]
    exact h.nodup claims hclaims

/-- The claims of versions laid onto each other, in the order in which they came. -/
theorem map_claimType_folded? {claims : TechnicalProfile → List ClaimReference}
    (hclaims : claims ∈ claimLists) (hversions : ∀ v ∈ versions, v.body.NamesOnce)
    {own : Version TechnicalProfile} (h : folded? versions = some own) :
    (claims own.body).map ClaimReference.claimType =
      distinct ((byDepth versions).flatMap fun v =>
        (claims v.body).map ClaimReference.claimType) := by
  have hview : ∀ items : List (Version TechnicalProfile),
      (laid? Version.layer items).map (fun v => claims v.body) =
        laid? layerClaims (items.map fun v => claims v.body) :=
    map_laid? (fun v : Version TechnicalProfile => claims v.body) fun v w =>
      claims_layer hclaims v.body w.body
  have hlists : laid? layerClaims ((byDepth versions).map fun v => claims v.body) =
      some (claims own.body) := by
    rw [folded?_eq_laid?_byDepth] at h
    rw [← hview, h, Option.map_some]
  have honce : ∀ list ∈ (byDepth versions).map (fun v => claims v.body),
      (list.map ClaimReference.claimType).Nodup := by
    intro list hlist
    obtain ⟨v, hv, rfl⟩ := List.mem_map.mp hlist
    exact (hversions v (mem_byDepth.mp hv)).claims claims hclaims
  rw [keys_laid? (fun base derived _ hderived => map_layerClaims base hderived) honce hlists,
    List.map_flatten, List.map_map, ← List.flatMap_def]
  rfl

/-- **Versions laid onto each other.** -/
theorem IsLaidOnto.of_folded? (hversions : ∀ v ∈ versions, v.body.NamesOnce)
    {own : Version TechnicalProfile} (h : folded? versions = some own) :
    own.body.NamesOnce ∧ IsLaidOnto none versions own.body := by
  have hlookup {γ : Type} {f : TechnicalProfile → Option γ} (hf : IsLookup f) :
      own.body.NamesOnce ∧ IsInherited f none versions own.body :=
    isInherited_of_folded? (fun _ _ => NamesOnce.layer) hf.layer hversions h
  have hown : own.body.NamesOnce := (hlookup (isLookup_metadata "")).1
  refine ⟨hown, fun f hf => ?_, fun name => ?_, fun claims hclaims claim => ?_,
    fun claims hclaims => ?_, hown.claims⟩
  · exact (hlookup (isLookup_of_mem_scalars hf)).2
  · exact (hlookup (isLookup_metadata name)).2
  · exact (hlookup (isLookup_claim hclaims claim)).2
  · exact map_claimType_folded? hclaims hversions h

/-- **Versions on top of a base.** -/
theorem IsLaidOnto.layer (h : IsLaidOnto none versions p) (hp : p.NamesOnce)
    {base : TechnicalProfile} (hbase : base.NamesOnce) :
    IsLaidOnto (some base) versions (Definition.layer base p) where
  scalar f hf := (h.scalar f hf).on ((isLookup_of_mem_scalars hf).layer base p hbase hp)
  metadata name := (h.metadata name).on ((isLookup_metadata name).layer base p hbase hp)
  claim claims hclaims claim :=
    (h.claim claims hclaims claim).on ((isLookup_claim hclaims claim).layer base p hbase hp)
  claimTypes claims hclaims := by
    rw [claims_layer hclaims, map_layerClaims _ (hp.claims claims hclaims),
      h.claimTypes claims hclaims]
    exact addAllNew_distinct _ _
  nodup := (hbase.layer hp).claims

/-- A profile on top of itself. -/
theorem IsLaidOnto.self (h : IsLaidOnto none versions p) : IsLaidOnto (some p) versions p where
  scalar f hf := (h.scalar f hf).self
  metadata name := (h.metadata name).self
  claim claims hclaims claim := (h.claim claims hclaims claim).self
  claimTypes claims hclaims := by
    have htypes := h.claimTypes claims hclaims
    refine (addAllNew_eq_self fun claim hclaim => ?_).symm
    have hmem : claim ∈ (claims p).map ClaimReference.claimType := by
      rw [htypes]
      exact mem_addAllNew.mpr (Or.inr hclaim)
    exact hmem
  nodup := h.nodup

end TechnicalProfile

/-! ### Profiles of a store -/

namespace Profiles

variable {profiles : Profiles} {id : String}

theorem namesOnce_of_mem_originals
    (honce : Collection.All (fun v => v.body.NamesOnce) profiles) :
    ∀ v ∈ profiles.originals id, v.body.NamesOnce := fun _ hv =>
  honce.of_mem_versions (Collection.mem_versions_of_mem_originals hv)

/-- Layers are profiles that their versions amount to. -/
theorem exists_own?_of_mem_layers {bound : Nat} {v : Version TechnicalProfile}
    (hv : v ∈ profiles.layers bound id) : ∃ id, profiles.own? id = some v := by
  induction bound generalizing id with
  | zero => cases hv
  | succ bound ih =>
    rw [layers_succ] at hv
    cases hown : profiles.own? id with
    | none =>
      rw [hown] at hv
      cases hv
    | some own =>
      rw [hown] at hv
      rcases List.mem_cons.mp hv with rfl | hv
      · exact ⟨id, hown⟩
      · cases hinclude : profiles.fullInclude? id with
        | none =>
          rw [hinclude] at hv
          cases hv
        | some included =>
          rw [hinclude] at hv
          exact ih hv

theorem namesOnce_merged? {layers : List (Version TechnicalProfile)}
    (hlayers : ∀ v ∈ layers, v.body.NamesOnce) {v : Version TechnicalProfile}
    (h : merged? layers = some v) : v.body.NamesOnce := by
  induction layers generalizing v with
  | nil => cases h
  | cons own layers ih =>
    rw [List.forall_mem_cons] at hlayers
    rw [merged?] at h
    cases hrest : merged? layers with
    | none =>
      rw [hrest] at h
      exact Option.some.inj h ▸ hlayers.1
    | some base =>
      rw [hrest] at h
      exact Option.some.inj h ▸ (ih hlayers.2 hrest).layer hlayers.1

/-- What a profile amounts to has each name once. -/
theorem namesOnce_whole? (honce : Collection.All (fun v => v.body.NamesOnce) profiles)
    {whole : Version TechnicalProfile} (h : profiles.whole? id = some whole) :
    whole.body.NamesOnce := by
  refine namesOnce_merged? (fun v hv => ?_) h
  obtain ⟨id, hown⟩ := exists_own?_of_mem_layers hv
  exact (TechnicalProfile.IsLaidOnto.of_folded? (namesOnce_of_mem_originals honce) hown).1

/-- **A profile amounts to its versions on top of what the profile it includes amounts to.** -/
theorem isLaidOnto_whole? (honce : Collection.All (fun v => v.body.NamesOnce) profiles)
    (hends : profiles.ends id = true) {whole : Version TechnicalProfile}
    (h : profiles.whole? id = some whole) :
    whole.body.IsLaidOnto (((profiles.fullInclude? id).bind profiles.whole?).map Version.body)
      (profiles.originals id) := by
  rw [whole?_eq hends] at h
  obtain ⟨own, hown, rfl⟩ := Option.map_eq_some_iff.mp h
  obtain ⟨hnames, hlaid⟩ :=
    TechnicalProfile.IsLaidOnto.of_folded? (namesOnce_of_mem_originals honce) hown
  cases hbase : (profiles.fullInclude? id).bind profiles.whole? with
  | none => exact hlaid
  | some base =>
    obtain ⟨included, -, hwhole⟩ := Option.bind_eq_some_iff.mp hbase
    exact hlaid.layer hnames (namesOnce_whole? honce hwhole)

end Profiles

/-- The metadata of the profiles that are found in files have each name once. -/
theorem Processing.nodup_metadata_extracted (documents : List Document) :
    Collection.All (fun v => v.body.metadata.names.Nodup)
      (extracted documents).technicalProfiles :=
  isExtracted_technicalProfiles.all_extracted fun _ _ f hf v _ hbody => by
    obtain ⟨provider, hread⟩ := body_of_mem_technicalProfilesIn hf
    have hmetadata : v.body.metadata = readMetadata f.node := by
      rw [hbody, hread]
      rfl
    rw [hmetadata, readMetadata, Fields.ofPairs, Fields.names_update]
    exact nodup_addAllNew List.nodup_nil _

/-- **What a profile in a resolved store amounts to.**  It is the versions that files define of
it, laid onto each other by depth: on top of what the profile that they include amounts to in the
same store, if they include one, and on top of nothing otherwise. -/
theorem consolidated_profile_isLaidOnto {store resolved : Store} {fileName : String}
    {fileCount : Int} (hresolve : store.resolve fileName fileCount = .ok resolved)
    (honce : Collection.All (fun v => v.body.NamesOnce) store.technicalProfiles) {id : String}
    (hid : Collection.originals store.technicalProfiles id ≠ []) :
    ∃ v, store.Gains resolved fileName fileCount id v ∧
      (Profiles.fullyIncluded? store.technicalProfiles id = none →
        v.body.IsLaidOnto none (Collection.originals store.technicalProfiles id)) ∧
      ∀ included, Profiles.fullyIncluded? store.technicalProfiles id = some included →
        ∃ base, store.Gains resolved fileName fileCount included base ∧
          v.body.IsLaidOnto (some base.body)
            (Collection.originals store.technicalProfiles id) := by
  obtain ⟨hcheck, hends, -⟩ := Store.resolve_eq_ok_iff.mp hresolve
  have hsound := (Profiles.checkIncludes_eq_ok_iff.mp hcheck).1
  have hacyclic : Profiles.IsAcyclic store.technicalProfiles :=
    Profiles.all_ends_iff_isAcyclic.mp (List.all_eq_true.mpr hends)
  obtain ⟨v, latest, whole, hgains, -, hwhole, hbody⟩ := Store.exists_gains hresolve hid
  have hlaid := Profiles.isLaidOnto_whole? honce (Profiles.ends_of_isAcyclic hacyclic id) hwhole
  have hbare : v.body.bare = whole.body.bare := by
    rw [hbody]
    rfl
  refine ⟨v, hgains, fun hnone => ?_, fun included hincluded => ?_⟩
  · rw [Profiles.fullInclude?_eq, hnone] at hlaid
    exact hlaid.congr hbare rfl
  · by_cases hself : included = id
    · -- a profile that includes itself is on top of nothing, and so on top of itself
      subst hself
      have hnone : Profiles.fullInclude? store.technicalProfiles included = none := by
        rw [Profiles.fullInclude?_eq, hincluded]
        simp
      rw [hnone] at hlaid
      exact ⟨v, hgains, (hlaid.congr hbare rfl).self⟩
    · have hinclude : Profiles.fullInclude? store.technicalProfiles id = some included := by
        rw [Profiles.fullInclude?_eq, hincluded]
        simp [hself]
      obtain ⟨base, _, baseWhole, hbaseGains, -, hbaseWhole, hbaseBody⟩ := Store.exists_gains
        hresolve (Profiles.exists_original_of_fullyIncluded? hsound hincluded)
      rw [hinclude, Option.bind_some, hbaseWhole, Option.map_some] at hlaid
      refine ⟨base, hbaseGains, hlaid.congr hbare ?_⟩
      rw [Option.map_some, Option.map_some, hbaseBody]
      rfl

/-- A version that returns some claims under the name of its profile. -/
def returning (v : Version TechnicalProfile) (claims : List String) : Version TechnicalProfile :=
  { v with body := { v.body with
      outputClaims := claims.map fun claim => { claimType := claim, partnerClaimType := v.id } } }

/-- Profiles of which one is overridden and includes another, each with claims of its own. -/
def composed : Profiles :=
  [("A", [returning (Profiles.bareVersion "A" 0 (some "B")) ["name", "phone"],
      returning (Profiles.bareVersion "A" 1 none) ["phone", "city"]]),
    ("B", [returning (Profiles.bareVersion "B" 0 none) ["email", "name"]])]

theorem consolidated_profile_isLaidOnto_composed :
    ∃ resolved, composed.toStore.resolve "ConsolidatedPolicy" 2 = .ok resolved ∧
      ∃ v base, composed.toStore.Gains resolved "ConsolidatedPolicy" 2 "A" v ∧
        composed.toStore.Gains resolved "ConsolidatedPolicy" 2 "B" base ∧
        v.body.IsLaidOnto (some base.body) (Collection.originals composed "A") := by
  have hresolve := Store.resolve_toStore "ConsolidatedPolicy" 2
    (show composed.checkIncludes = .ok () by cbv)
    (show composed.names.all composed.ends = true by cbv)
  have honce : ∀ entry ∈ composed, ∀ v ∈ entry.2, v.body.NamesOnce := by decide
  have hid : Collection.originals composed "A" ≠ [] := highest?_isSome_iff.mp (by cbv)
  have hincluded : composed.fullyIncluded? "A" = some "B" := by cbv
  obtain ⟨v, hgains, -, hbase⟩ :=
    @consolidated_profile_isLaidOnto composed.toStore _ _ _ hresolve honce "A" hid
  obtain ⟨base, hbaseGains, hlaid⟩ := hbase "B" hincluded
  exact ⟨_, hresolve, v, base, hgains, hbaseGains, hlaid⟩

end TrustFramework
