import Mathlib.Data.List.Chain
import Mathlib.Data.List.Nodup
import Mathlib.Data.List.Perm.Basic
import Mathlib.Logic.Relation
import TrustFramework.Inheritance.Document

/-!
# Documents in the order of inheritance

Documents are put in order by going down from each to its bases first.  The way down from a
document either comes to a base that is placed already, or to a document without a base, or
back to a policy that it has passed; it passes no policy twice, so that the number of documents
bounds it.

## Main definitions

* `Document.HasBase`, `Document.HasAllBases` — which policy rests on which.
* `Document.IsCircle` — policies of which each rests on the next, back to the first.
* `Document.IsBaseFirst` — every base stands before what rests on it.
* `Document.IsPlaced`, `Document.IsTrail` — documents that have their places, and the way down
  from a document.

## Main results

* `Document.not_transGen_of_isBaseFirst` — documents that stand behind their bases have no
  circle.
* `withBases_spec` — **going down to the bases places a document, or finds a circle.**
* `orderByInheritance_spec` — **which faults documents have, and which order they get.**
-/

namespace TrustFramework

open Relation

namespace Document

variable {documents placed : List Document}

/-! ### Bases -/

/-- A policy rests on another one. -/
def HasBase (documents : List Document) (id base : String) : Prop :=
  ∃ d ∈ documents, d.policyId = id ∧ d.baseId? = some base

/-- Every base that a document names is the policy of a document. -/
def HasAllBases (documents : List Document) : Prop :=
  ∀ d ∈ documents, ∀ base, d.baseId? = some base → base ∈ documents.map policyId

/-- Policies of which each rests on the next, from one back to itself. -/
def IsCircle (documents : List Document) (ids : List String) : Prop :=
  ids.IsChain (HasBase documents) ∧ ∃ id between, ids = id :: (between ++ [id])

/-- Every base stands before the documents that rest on it. -/
def IsBaseFirst (documents : List Document) : Prop :=
  ∀ before d after, documents = before ++ d :: after →
    ∀ base, d.baseId? = some base → base ∈ before.map policyId

theorem mem_of_ofPolicy? {id : String} {d : Document} (h : ofPolicy? documents id = some d) :
    d ∈ documents ∧ d.policyId = id :=
  ⟨List.mem_of_find?_eq_some h, by simpa using List.find?_some h⟩

theorem isSome_ofPolicy?_iff {id : String} :
    (ofPolicy? documents id).isSome = true ↔ id ∈ documents.map policyId := by
  simp [ofPolicy?, List.find?_isSome]

/-- A policy is that of one document only. -/
theorem eq_of_policyId_eq (hids : (documents.map policyId).Nodup) {d e : Document}
    (hd : d ∈ documents) (he : e ∈ documents) (h : d.policyId = e.policyId) : d = e :=
  List.inj_on_of_nodup_map hids hd he h

/-! ### Circles -/

/-- What a chain leads to is reached from where it begins. -/
theorem transGen_of_isChain {α : Type} {r : α → α → Prop} {a b : α} {between : List α}
    (h : (a :: (between ++ [b])).IsChain r) : TransGen r a b := by
  induction between generalizing a with
  | nil => exact TransGen.single (List.isChain_pair.mp h)
  | cons c between ih =>
    obtain ⟨hstep, hrest⟩ := List.isChain_cons_cons.mp h
    exact TransGen.head hstep (ih hrest)

/-- Policies in a circle are those of documents, and come back to themselves. -/
theorem IsCircle.exists_transGen {ids : List String} (h : IsCircle documents ids) :
    ∃ d ∈ documents, TransGen (HasBase documents) d.policyId d.policyId := by
  obtain ⟨hchain, id, between, rfl⟩ := h
  have hreach : TransGen (HasBase documents) id id := transGen_of_isChain hchain
  obtain ⟨base, ⟨d, hd, rfl, -⟩, -⟩ := TransGen.head'_iff.mp hreach
  exact ⟨d, hd, hreach⟩

theorem isBaseFirst_nil : IsBaseFirst [] := by
  intro before d after h
  simp at h

/-- One more document may stand behind its base. -/
theorem isBaseFirst_append_singleton {d : Document} :
    IsBaseFirst (placed ++ [d]) ↔
      IsBaseFirst placed ∧ ∀ base, d.baseId? = some base → base ∈ placed.map policyId := by
  constructor
  · intro h
    refine ⟨?_, h placed d [] rfl⟩
    rintro before e after rfl
    exact h before e (after ++ [d]) (by simp)
  · rintro ⟨hplaced, hd⟩ before e after heq
    -- the document in question is the last one or one of those before it
    cases after using List.reverseRecOn with
    | nil =>
      obtain ⟨rfl, he⟩ := List.append_inj' heq rfl
      rw [← (List.cons.inj he).1]
      exact hd
    | append_singleton after last _ =>
      rw [← List.cons_append, ← List.append_assoc] at heq
      exact hplaced before e after (List.append_inj' heq rfl).1

/-- Whatever a policy leads to stands before it. -/
theorem IsBaseFirst.mem_of_transGen (hfirst : IsBaseFirst documents)
    (hids : (documents.map policyId).Nodup) {before after : List Document} {d : Document}
    (hdocuments : documents = before ++ d :: after) {id : String}
    (h : TransGen (HasBase documents) d.policyId id) : id ∈ before.map policyId := by
  have hd : d ∈ documents := by simp [hdocuments]
  induction h with
  | single hbase =>
    obtain ⟨e, he, hid, hbase⟩ := hbase
    rw [eq_of_policyId_eq hids he hd hid] at hbase
    exact hfirst before d after hdocuments _ hbase
  | tail _ hbase ih =>
    obtain ⟨e, he, rfl, hbase⟩ := hbase
    obtain ⟨e', he', hid⟩ := List.mem_map.mp ih
    have he'' : e' ∈ documents := by simp [hdocuments, he']
    obtain rfl : e' = e := eq_of_policyId_eq hids he'' he hid
    -- the document on the way stands before `d`, and its base before it
    obtain ⟨first, rest, rfl⟩ := List.append_of_mem he'
    have hmem := hfirst first e' (rest ++ d :: after) (by simp [hdocuments]) _ hbase
    simpa using Or.inl (List.mem_map.mp hmem)

/-- **Documents that stand behind their bases have no circle.** -/
theorem not_transGen_of_isBaseFirst (hfirst : IsBaseFirst documents)
    (hids : (documents.map policyId).Nodup) {d : Document} (hd : d ∈ documents) :
    ¬ TransGen (HasBase documents) d.policyId d.policyId := by
  intro hcircle
  obtain ⟨before, after, rfl⟩ := List.append_of_mem hd
  obtain ⟨e, he, hid⟩ := List.mem_map.mp (hfirst.mem_of_transGen hids rfl hcircle)
  rw [List.map_append, List.nodup_append] at hids
  exact hids.2.2 _ (List.mem_map_of_mem he) _ (List.mem_map_of_mem List.mem_cons_self) hid

/-- Nor have those that can be put so. -/
theorem not_transGen_of_perm {ordered : List Document} (hperm : ordered.Perm documents)
    (hids : (documents.map policyId).Nodup) (hfirst : IsBaseFirst ordered) :
    ∀ d ∈ documents, ¬ TransGen (HasBase documents) d.policyId d.policyId := by
  intro d hd hreach
  have hordered : TransGen (HasBase ordered) d.policyId d.policyId := by
    refine TransGen.mono ?_ _ _ hreach
    rintro id base ⟨e, he, hbase⟩
    exact ⟨e, hperm.mem_iff.mpr he, hbase⟩
  exact not_transGen_of_isBaseFirst hfirst ((hperm.map policyId).nodup_iff.mpr hids)
    (hperm.mem_iff.mpr hd) hordered

/-! ### Going down to the bases -/

/-- Some of the documents with their places: none twice, and each behind its base. -/
structure IsPlaced (documents placed : List Document) : Prop where
  subset : placed ⊆ documents
  nodup : (placed.map policyId).Nodup
  baseFirst : IsBaseFirst placed

/-- The policies on the way down to a policy: none twice, and each rests on the next. -/
structure IsTrail (documents : List Document) (trail : List String) (id : String) : Prop where
  subset : trail ⊆ documents.map policyId
  nodup : trail.Nodup
  chain : (trail ++ [id]).IsChain (HasBase documents)

theorem IsPlaced.nil : IsPlaced documents [] :=
  ⟨List.nil_subset _, List.nodup_nil, isBaseFirst_nil⟩

/-- One more document gets its place behind its base. -/
theorem IsPlaced.append_singleton (h : IsPlaced documents placed) {d : Document}
    (hd : d ∈ documents) (hnew : d.policyId ∉ placed.map policyId)
    (hbase : ∀ base, d.baseId? = some base → base ∈ placed.map policyId) :
    IsPlaced documents (placed ++ [d]) where
  subset := List.append_subset.mpr ⟨h.subset, by simpa using hd⟩
  nodup := by
    rw [List.map_append, List.nodup_append]
    refine ⟨h.nodup, List.nodup_singleton _, ?_⟩
    intro id hid other hother heq
    rw [List.map_singleton, List.mem_singleton] at hother
    exact hnew (hother ▸ heq ▸ hid)
  baseFirst := isBaseFirst_append_singleton.mpr ⟨h.baseFirst, hbase⟩

/-- A way down has fewer policies than there are documents, or has passed all of them. -/
theorem IsTrail.length_le {trail : List String} {id : String} (h : IsTrail documents trail id) :
    trail.length ≤ documents.length := by
  simpa using (List.subperm_of_subset h.nodup h.subset).length_le

/-- The way down goes on to the base of a policy that it has not passed. -/
theorem IsTrail.append {trail : List String} {d base : Document}
    (h : IsTrail documents trail d.policyId) (hd : d ∈ documents) (hnew : d.policyId ∉ trail)
    (hbase : d.baseId? = some base.policyId) :
    IsTrail documents (trail ++ [d.policyId]) base.policyId where
  subset := List.append_subset.mpr ⟨h.subset, by simpa using ⟨d, hd, rfl⟩⟩
  nodup := by
    rw [List.nodup_append]
    refine ⟨h.nodup, List.nodup_singleton _, ?_⟩
    intro id hid other hother heq
    rw [List.mem_singleton] at hother
    exact hnew (hother ▸ heq ▸ hid)
  chain := by
    rw [List.append_assoc]
    exact List.isChain_append_cons_cons.mpr
      ⟨h.chain, ⟨d, hd, rfl, hbase⟩, List.isChain_singleton _⟩

/-- The way down from where it has passed a policy. -/
theorem dropWhile_ne_of_mem {trail : List String} {id : String} (h : id ∈ trail) :
    ∃ before rest, trail = before ++ id :: rest ∧
      trail.dropWhile (fun other => decide (other ≠ id)) = id :: rest := by
  induction trail with
  | nil => simp at h
  | cons first trail ih =>
    by_cases hfirst : first = id
    · subst hfirst
      exact ⟨[], trail, rfl, by simp⟩
    · obtain ⟨before, rest, htrail, hdrop⟩ := ih ((List.mem_cons.mp h).resolve_left (Ne.symm hfirst))
      exact ⟨first :: before, rest, by rw [htrail, List.cons_append], by
        rw [List.dropWhile_cons_of_pos (by simpa using hfirst), hdrop]⟩

/-- A way down that comes back to a policy has a circle. -/
theorem IsTrail.isCircle {trail : List String} {id : String} (h : IsTrail documents trail id)
    (hid : id ∈ trail) :
    IsCircle documents (trail.dropWhile (fun other => decide (other ≠ id)) ++ [id]) := by
  obtain ⟨before, rest, htrail, hdrop⟩ := dropWhile_ne_of_mem hid
  have hchain := h.chain
  rw [htrail, List.append_assoc] at hchain
  rw [hdrop]
  exact ⟨hchain.right_of_append, id, rest, rfl⟩

/-- What going down from a document may come to: a circle, or more documents that have their
places, the document among them and none that was on the way. -/
def IsDescent (documents placed : List Document) (trail : List String) (id : String) :
    Except Policy.Fault (List Document) → Prop
  | .error fault => ∃ circle, fault = .cycle circle ∧ IsCircle documents circle
  | .ok more => IsPlaced documents (placed ++ more) ∧ id ∈ (placed ++ more).map policyId ∧
      ∀ e ∈ more, e.policyId ∉ trail

end Document

open Document

variable {documents placed : List Document}

/-- The base of a document is one of the documents. -/
theorem exists_ofPolicy?_baseId (hbases : HasAllBases documents) {d : Document}
    (hd : d ∈ documents) {baseId : String} (h : d.baseId? = some baseId) :
    ∃ base, ofPolicy? documents baseId = some base := by
  rw [← Option.isSome_iff_exists, isSome_ofPolicy?_iff]
  exact hbases d hd baseId h

/-- **Going down to the bases places a document, or finds a circle.** -/
theorem withBases_spec (hbases : HasAllBases documents) (hplaced : IsPlaced documents placed)
    (bound : Nat) {trail : List String} {d : Document} (hd : d ∈ documents)
    (htrail : IsTrail documents trail d.policyId)
    (hbound : documents.length < trail.length + bound) :
    IsDescent documents placed trail d.policyId (withBases documents placed bound trail d) := by
  induction bound generalizing trail d with
  | zero =>
    -- the way down would have passed more policies than there are
    have hle := htrail.length_le
    omega
  | succ bound ih =>
    unfold withBases
    split
    · next hknown =>
      rw [isSome_ofPolicy?_iff] at hknown
      rw [IsDescent, List.append_nil]
      exact ⟨hplaced, hknown, by simp⟩
    next hnew =>
    rw [isSome_ofPolicy?_iff] at hnew
    split
    · next hpassed => exact ⟨_, rfl, htrail.isCircle (List.contains_iff_mem.mp hpassed)⟩
    next hpassed =>
    have hpassed : d.policyId ∉ trail := fun h => hpassed (List.contains_iff_mem.mpr h)
    cases hbaseId : d.baseId? with
    | none =>
      have hhere : IsPlaced documents (placed ++ [d]) :=
        hplaced.append_singleton hd hnew (by simp [hbaseId])
      exact ⟨hhere, by simp, by simpa using hpassed⟩
    | some baseId =>
      obtain ⟨base, hbase⟩ := exists_ofPolicy?_baseId hbases hd hbaseId
      obtain ⟨hmem, rfl⟩ := mem_of_ofPolicy? hbase
      have hbelow := ih hmem (htrail.append hd hpassed hbaseId)
        (by rw [List.length_append, List.length_singleton]; omega)
      rw [Option.bind_some, hbase]
      show IsDescent documents placed trail d.policyId
        (withBases documents placed bound (trail ++ [d.policyId]) base >>= fun before =>
          pure (before ++ [d]))
      cases hdescent : withBases documents placed bound (trail ++ [d.policyId]) base with
      | error fault =>
        rw [hdescent] at hbelow
        exact hbelow
      | ok before =>
        rw [hdescent] at hbelow
        obtain ⟨hbefore, hthere, havoids⟩ := hbelow
        -- the document is not among those below it, which are not on the way
        have hnew' : d.policyId ∉ (placed ++ before).map policyId := by
          rw [List.map_append, List.mem_append, not_or]
          refine ⟨hnew, ?_⟩
          intro hd'
          obtain ⟨e, he, hid⟩ := List.mem_map.mp hd'
          exact havoids e he (by simp [hid])
        have hhere : IsPlaced documents ((placed ++ before) ++ [d]) :=
          hbefore.append_singleton hd hnew' fun other hother => by
            rw [hbaseId, Option.some.injEq] at hother
            exact hother ▸ hthere
        refine ⟨by rwa [← List.append_assoc], by simp, ?_⟩
        intro e he
        rcases List.mem_append.mp he with he | he
        · exact fun h => havoids e he (List.mem_append_left _ h)
        · rw [List.mem_singleton.mp he]
          exact hpassed

/-! ### One document after the other -/

/-- A document put behind those that are placed, with the bases it needs. -/
def placeNext (documents placed : List Document) (d : Document) :
    Except Policy.Fault (List Document) := do
  let more ← withBases documents placed (documents.length + 1) [] d
  pure (placed ++ more)

/-- Documents placed one after the other. -/
theorem foldlM_placeNext_spec (hbases : HasAllBases documents) (hplaced : IsPlaced documents placed)
    {next : List Document} (hnext : next ⊆ documents) :
    match next.foldlM (placeNext documents) placed with
    | .error fault => ∃ circle, fault = .cycle circle ∧ IsCircle documents circle
    | .ok ordered => IsPlaced documents ordered ∧
        placed.map policyId ⊆ ordered.map policyId ∧
        next.map policyId ⊆ ordered.map policyId := by
  induction next generalizing placed with
  | nil => exact ⟨hplaced, List.Subset.refl _, List.nil_subset _⟩
  | cons d next ih =>
    obtain ⟨hd, hnext⟩ := List.cons_subset.mp hnext
    have htrail : IsTrail documents [] d.policyId :=
      ⟨List.nil_subset _, List.nodup_nil, List.isChain_singleton _⟩
    have hdescent := withBases_spec hbases hplaced (documents.length + 1) hd htrail
      (by rw [List.length_nil]; omega)
    rw [List.foldlM_cons, placeNext]
    cases hmore : withBases documents placed (documents.length + 1) [] d with
    | error fault =>
      rw [hmore] at hdescent
      exact hdescent
    | ok more =>
      rw [hmore] at hdescent
      obtain ⟨hplaced', hhere, -⟩ := hdescent
      show match next.foldlM (placeNext documents) (placed ++ more) with
        | .error fault => _
        | .ok ordered => _
      have hrest := ih hplaced' hnext
      split
      · next h =>
        rw [h] at hrest
        exact hrest
      · next h =>
        rw [h] at hrest
        obtain ⟨hordered, hkept, hthere⟩ := hrest
        refine ⟨hordered, ?_, List.cons_subset.mpr ⟨hkept hhere, hthere⟩⟩
        rw [List.map_append] at hkept
        exact (List.append_subset.mp hkept).1

/-- Documents that stand behind their bases stay where they are. -/
theorem foldlM_placeNext_of_isBaseFirst (hids : (documents.map policyId).Nodup)
    (hfirst : IsBaseFirst documents) {next : List Document} (hdocuments : documents = placed ++ next) :
    next.foldlM (placeNext documents) placed = .ok documents := by
  induction next generalizing placed with
  | nil => rw [hdocuments, List.append_nil]; rfl
  | cons d next ih =>
    have hnew : (ofPolicy? placed d.policyId).isSome = false := by
      rw [Bool.eq_false_iff, ne_eq, isSome_ofPolicy?_iff]
      intro hplaced
      rw [hdocuments, List.map_append, List.nodup_append] at hids
      exact hids.2.2 _ hplaced _ (List.mem_map_of_mem List.mem_cons_self) rfl
    have hnext : placeNext documents placed d = .ok (placed ++ [d]) := by
      rw [placeNext, withBases, hnew]
      cases hbaseId : d.baseId?.bind (ofPolicy? documents) with
      | none => rfl
      | some base =>
        -- the base is placed, so that going down to it ends at once
        obtain ⟨baseId, hbaseId, hbase⟩ := Option.bind_eq_some_iff.mp hbaseId
        have hplaced := hfirst placed d next hdocuments baseId hbaseId
        rw [← (mem_of_ofPolicy? hbase).2, ← isSome_ofPolicy?_iff] at hplaced
        have hlength : documents.length = (documents.length - 1) + 1 := by
          rw [hdocuments, List.length_append, List.length_cons]
          omega
        rw [hlength]
        simp [withBases, hplaced]
    rw [List.foldlM_cons, hnext]
    exact ih (by rw [hdocuments, List.append_assoc, List.singleton_append])

/-! ### Faults -/

/-- Two documents of one policy are a fault, and nothing else is here. -/
theorem duplicateFault?_spec (seen next : List Document) (hseen : (seen.map policyId).Nodup) :
    match duplicateFault? seen next with
    | none => ((seen ++ next).map policyId).Nodup
    | some fault => ¬ ((seen ++ next).map policyId).Nodup ∧
        ∃ first second, first.policyId = second.policyId ∧ [first, second].Sublist (seen ++ next) ∧
          fault = .duplicatePolicy second.policyId first.fileName second.fileName := by
  induction next generalizing seen with
  | nil => simpa [duplicateFault?] using hseen
  | cons d next ih =>
    rw [duplicateFault?]
    cases hfirst : ofPolicy? seen d.policyId with
    | none =>
      have hnew : d.policyId ∉ seen.map policyId := by
        rw [← isSome_ofPolicy?_iff, hfirst]
        exact Bool.false_ne_true
      have hseen' : ((seen ++ [d]).map policyId).Nodup := by
        rw [List.map_append, List.nodup_append]
        refine ⟨hseen, List.nodup_singleton _, ?_⟩
        intro id hid other hother heq
        rw [List.map_singleton, List.mem_singleton] at hother
        exact hnew (hother ▸ heq ▸ hid)
      simpa using ih (seen ++ [d]) hseen'
    | some first =>
      obtain ⟨hmem, hid⟩ := mem_of_ofPolicy? hfirst
      refine ⟨?_, first, d, hid, ?_, rfl⟩
      · intro hids
        rw [List.map_append, List.nodup_append] at hids
        exact hids.2.2 _ (List.mem_map_of_mem hmem) _ (List.mem_map_of_mem List.mem_cons_self) hid
      · exact (List.singleton_sublist.mpr hmem).append
          (List.singleton_sublist.mpr List.mem_cons_self)

/-- A base that is not there is a fault, and nothing else is here. -/
theorem missingBaseFault?_spec (documents : List Document) :
    match missingBaseFault? documents with
    | none => HasAllBases documents
    | some fault => ∃ d ∈ documents, ∃ base, d.baseId? = some base ∧
        base ∉ documents.map policyId ∧ fault = .missingBase d.policyId base d.fileName := by
  cases hfault : missingBaseFault? documents with
  | none =>
    intro d hd base hbase
    have hnone := List.findSome?_eq_none_iff.mp hfault d hd
    simp only [hbase, Option.bind_some, ite_eq_left_iff, reduceCtorEq, imp_false, not_not] at hnone
    exact isSome_ofPolicy?_iff.mp hnone
  | some fault =>
    obtain ⟨d, hd, hsome⟩ := List.exists_of_findSome?_eq_some hfault
    obtain ⟨base, hbase, hmissing⟩ := Option.bind_eq_some_iff.mp hsome
    split at hmissing
    · cases hmissing
    · next h =>
      refine ⟨d, hd, base, hbase, ?_, (Option.some.inj hmissing).symm⟩
      rwa [← isSome_ofPolicy?_iff]

/-! ### The order -/

namespace Document

theorem IsBaseFirst.hasAllBases (h : IsBaseFirst documents) : HasAllBases documents := by
  intro d hd base hbase
  obtain ⟨before, after, rfl⟩ := List.append_of_mem hd
  rw [List.map_append]
  exact List.mem_append_left _ (h before d after rfl base hbase)

/-- What a list of documents may be ordered to: a fault that it has, or the same documents, each
behind its base, and as they were if they all were. -/
def IsOutcome (documents : List Document) : Except Policy.Fault (List Document) → Prop
  | .error (.duplicatePolicy id first second) => ¬ (documents.map policyId).Nodup ∧
      ∃ d e, [d, e].Sublist documents ∧ d.policyId = id ∧ e.policyId = id ∧
        d.fileName = first ∧ e.fileName = second
  | .error (.missingBase id base file) => (documents.map policyId).Nodup ∧
      ∃ d ∈ documents, d.policyId = id ∧ d.fileName = file ∧ d.baseId? = some base ∧
        base ∉ documents.map policyId
  | .error (.cycle circle) => (documents.map policyId).Nodup ∧ HasAllBases documents ∧
      IsCircle documents circle
  | .error _ => False
  | .ok ordered => (documents.map policyId).Nodup ∧ HasAllBases documents ∧
      ordered.Perm documents ∧ IsBaseFirst ordered ∧ (IsBaseFirst documents → ordered = documents)

/-- Documents that have their places, with all policies among them, are the documents. -/
theorem IsPlaced.perm (hids : (documents.map policyId).Nodup) (h : IsPlaced documents placed)
    (hall : documents.map policyId ⊆ placed.map policyId) : placed.Perm documents := by
  rw [List.perm_ext_iff_of_nodup h.nodup.of_map hids.of_map]
  intro d
  refine ⟨fun hd => h.subset hd, fun hd => ?_⟩
  obtain ⟨e, he, hid⟩ := List.mem_map.mp (hall (List.mem_map_of_mem hd))
  rwa [← eq_of_policyId_eq hids (h.subset he) hd hid]

end Document

theorem orderByInheritance_isOutcome (documents : List Document) :
    IsOutcome documents (orderByInheritance documents) := by
  have hduplicate := duplicateFault?_spec [] documents List.nodup_nil
  have hmissing := missingBaseFault?_spec documents
  rw [List.nil_append] at hduplicate
  unfold orderByInheritance
  cases hfault : duplicateFault? [] documents with
  | some fault =>
    rw [hfault] at hduplicate
    obtain ⟨hids, first, second, hid, hsublist, rfl⟩ := hduplicate
    exact ⟨hids, first, second, hsublist, hid, rfl, rfl, rfl⟩
  | none =>
    rw [hfault] at hduplicate
    cases hfault' : missingBaseFault? documents with
    | some fault =>
      rw [hfault'] at hmissing
      obtain ⟨d, hd, base, hbase, habsent, rfl⟩ := hmissing
      exact ⟨hduplicate, d, hd, rfl, rfl, hbase, habsent⟩
    | none =>
      rw [hfault'] at hmissing
      show IsOutcome documents (documents.foldlM (placeNext documents) [])
      have hspec := foldlM_placeNext_spec hmissing IsPlaced.nil (List.Subset.refl documents)
      cases hordered : documents.foldlM (placeNext documents) [] with
      | error fault =>
        rw [hordered] at hspec
        obtain ⟨circle, rfl, hcircle⟩ := hspec
        exact ⟨hduplicate, hmissing, hcircle⟩
      | ok ordered =>
        rw [hordered] at hspec
        obtain ⟨hplaced, -, hall⟩ := hspec
        refine ⟨hduplicate, hmissing, hplaced.perm hduplicate hall, hplaced.baseFirst, ?_⟩
        intro hfirst
        have hsame := foldlM_placeNext_of_isBaseFirst hduplicate hfirst (List.nil_append _).symm
        exact Except.ok.inj (hordered.symm.trans hsame)

/-- **Which faults documents have, and which order they get.**  Documents of one policy are a
fault; else a base that is not there; else bases in a circle, which is then told from a policy
back to it.  All other documents are put in order, each behind its base, and those that stand so
already stay where they are. -/
theorem orderByInheritance_spec (documents : List Document) :
    ((∃ id first second,
        orderByInheritance documents = .error (.duplicatePolicy id first second)) ↔
      ¬ (documents.map policyId).Nodup) ∧
    ((∃ id base file, orderByInheritance documents = .error (.missingBase id base file)) ↔
      (documents.map policyId).Nodup ∧ ¬ HasAllBases documents) ∧
    ((∃ circle, orderByInheritance documents = .error (.cycle circle)) ↔
      (documents.map policyId).Nodup ∧ HasAllBases documents ∧
        ∃ d ∈ documents, TransGen (HasBase documents) d.policyId d.policyId) ∧
    (∀ circle, orderByInheritance documents = .error (.cycle circle) →
      IsCircle documents circle) ∧
    ((∃ ordered, orderByInheritance documents = .ok ordered) ↔
      (documents.map policyId).Nodup ∧ HasAllBases documents ∧
        ∀ d ∈ documents, ¬ TransGen (HasBase documents) d.policyId d.policyId) ∧
    (∀ ordered, orderByInheritance documents = .ok ordered →
      ordered.Perm documents ∧ IsBaseFirst ordered) ∧
    ((documents.map policyId).Nodup → IsBaseFirst documents →
      orderByInheritance documents = .ok documents) := by
  have houtcome := orderByInheritance_isOutcome documents
  generalize orderByInheritance documents = outcome at houtcome
  cases outcome with
  | ok ordered =>
    obtain ⟨hids, hbases, hperm, hfirst, hsame⟩ := houtcome
    have hacyclic := not_transGen_of_perm hperm hids hfirst
    refine ⟨by simp [hids], by simp [hbases], ?_, by simp, by simpa [hids, hbases] using hacyclic,
      ?_, fun _ h => congrArg Except.ok (hsame h)⟩
    · simpa [hids, hbases] using hacyclic
    · rintro _ ⟨⟩
      exact ⟨hperm, hfirst⟩
  | error fault =>
    cases fault with
    | duplicatePolicy id first second => simp [houtcome.1]
    | missingBase id base file =>
      obtain ⟨hids, d, hd, -, -, hbase, habsent⟩ := houtcome
      have hbases : ¬ HasAllBases documents := fun h => habsent (h d hd base hbase)
      simpa [hids, hbases] using fun h => hbases (IsBaseFirst.hasAllBases h)
    | cycle circle =>
      obtain ⟨hids, hbases, hcircle⟩ := houtcome
      obtain ⟨d, hd, hreach⟩ := hcircle.exists_transGen
      have hcyclic : ∃ d ∈ documents, TransGen (HasBase documents) d.policyId d.policyId :=
        ⟨d, hd, hreach⟩
      have hlate : ¬ IsBaseFirst documents := fun h =>
        not_transGen_of_isBaseFirst h hids hd hreach
      simpa [hids, hbases, hcircle, hlate] using hcyclic
    | _ => exact houtcome.elim

end TrustFramework
