import TrustFramework.Proofs.Inheritance.Order

/-!
# Who rests on whom, and how deep

A hierarchy is made from documents one by one, and the depth of a policy from that of its base.
Documents that are in the order of inheritance stand behind their bases, so that the depth of a
base is always there when it is looked up, and does not change later on: a document that comes
later is of another policy, and nothing before it rests on it.

## Main definitions

* `Document.BaseLinks` — how many links lead from a policy to one without a base.
* `Document.restingOn` — the policies that rest on a policy, in the order of the documents.
* `Hierarchy.IsOf` — a hierarchy says of documents what is the case.

## Main results

* `Document.baseLinks_append_iff_of_ne` — a further document leaves the links of others.
* `Hierarchy.IsOf.add` — **a document is put into a hierarchy.**
* `Hierarchy.isOf_ofDocuments` — documents behind their bases have the hierarchy made from them.
* `hierarchy_of_ordered` — **the hierarchy of documents in the order of inheritance.**
-/

namespace TrustFramework

namespace Document

variable {placed : List Document} {d : Document} {id base : String} {n : Nat}

theorem IsBaseFirst.of_append {before after : List Document} (h : IsBaseFirst (before ++ after)) :
    IsBaseFirst before := by
  rintro first d rest rfl
  exact h first d (rest ++ after) (by simp)

/-! ### Links to bases -/

/-- The number of links that lead from a policy to its base, from there to the next base, and so
on to a policy without one. -/
@[mk_iff]
inductive BaseLinks (documents : List Document) : String → Nat → Prop
  | root {d : Document} (hd : d ∈ documents) (hbase : d.baseId? = none) :
      BaseLinks documents d.policyId 0
  | link {id base : String} {n : Nat} (hbase : HasBase documents id base)
      (hlinks : BaseLinks documents base n) : BaseLinks documents id (n + 1)

/-- The policies that rest on a policy, in the order of the documents. -/
def restingOn (documents : List Document) (base : String) : List String :=
  (documents.filter fun d => d.baseId? = some base).map policyId

theorem mem_restingOn {documents : List Document} :
    id ∈ restingOn documents base ↔ HasBase documents id base := by
  simp only [restingOn, HasBase, List.mem_map, List.mem_filter, decide_eq_true_eq]
  exact exists_congr fun d => by tauto

theorem restingOn_append_singleton (placed : List Document) (d : Document) (base : String) :
    restingOn (placed ++ [d]) base =
      restingOn placed base ++ if d.baseId? = some base then [d.policyId] else [] := by
  rw [restingOn, List.filter_append, List.map_append, restingOn]
  split <;> simp [*]

theorem hasBase_append_singleton :
    HasBase (placed ++ [d]) id base ↔
      HasBase placed id base ∨ d.policyId = id ∧ d.baseId? = some base := by
  simp [HasBase, or_and_right, exists_or]

theorem HasBase.mem_of_hasAllBases (h : HasBase placed id base) (hbases : HasAllBases placed) :
    base ∈ placed.map policyId := by
  obtain ⟨e, he, -, hbase⟩ := h
  exact hbases e he base hbase

theorem BaseLinks.append_singleton (h : BaseLinks placed id n) (d : Document) :
    BaseLinks (placed ++ [d]) id n := by
  induction h with
  | root hd hbase => exact root (List.mem_append_left _ hd) hbase
  | link hbase _ ih => exact link (hasBase_append_singleton.mpr (Or.inl hbase)) ih

section

variable (hnew : d.policyId ∉ placed.map policyId)
include hnew

theorem eq_of_mem_append_singleton {e : Document} (he : e ∈ placed ++ [d])
    (hid : e.policyId = d.policyId) : e = d := by
  rcases List.mem_append.mp he with he | he
  · exact absurd (hid ▸ List.mem_map_of_mem he) hnew
  · exact List.mem_singleton.mp he

theorem not_hasBase_self : ¬ HasBase placed d.policyId base := by
  rintro ⟨e, he, hid, -⟩
  exact hnew (hid ▸ List.mem_map_of_mem he)

/-- **A document of another policy leaves the links of those before it**, which do not lead to
it. -/
theorem baseLinks_append_iff_of_ne (hbases : HasAllBases placed) (hne : id ≠ d.policyId) :
    BaseLinks (placed ++ [d]) id n ↔ BaseLinks placed id n := by
  refine ⟨fun h => ?_, fun h => h.append_singleton d⟩
  induction h with
  | root he hbase =>
    rcases List.mem_append.mp he with he | he
    · exact .root he hbase
    · exact absurd (congrArg policyId (List.mem_singleton.mp he)) hne
  | link hbase _ ih =>
    obtain hbefore | ⟨hid, -⟩ := hasBase_append_singleton.mp hbase
    · exact .link hbefore (ih fun hid => hnew (hid ▸ hbefore.mem_of_hasAllBases hbases))
    · exact absurd hid.symm hne

/-- A last document without a base has no link. -/
theorem baseLinks_append_self_iff_of_none (hnone : d.baseId? = none) :
    BaseLinks (placed ++ [d]) d.policyId n ↔ n = 0 := by
  constructor
  · intro h
    obtain ⟨-, -, -, -, hn⟩ | ⟨base, m, ⟨e, he, hid, hbase⟩, -, -⟩ := (baseLinks_iff ..).mp h
    · exact hn
    · rw [eq_of_mem_append_singleton hnew he hid, hnone] at hbase
      cases hbase
  · rintro rfl
    exact .root (by simp) hnone

/-- A last document that rests on another is one link further up than this. -/
theorem baseLinks_append_self_iff_of_some (hbases : HasAllBases placed)
    (hsome : d.baseId? = some base) (hbase : base ∈ placed.map policyId) :
    BaseLinks (placed ++ [d]) d.policyId n ↔ ∃ m, BaseLinks placed base m ∧ n = m + 1 := by
  have hne : base ≠ d.policyId := fun h => hnew (h ▸ hbase)
  constructor
  · intro h
    obtain ⟨e, he, hnone, hid, -⟩ | ⟨other, m, ⟨e, he, hid, hother⟩, hlinks, hn⟩ :=
      (baseLinks_iff ..).mp h
    · rw [eq_of_mem_append_singleton hnew he hid.symm, hsome] at hnone
      cases hnone
    · rw [eq_of_mem_append_singleton hnew he hid, hsome] at hother
      obtain rfl := Option.some.inj hother
      exact ⟨m, (baseLinks_append_iff_of_ne hnew hbases hne).mp hlinks, hn⟩
  · rintro ⟨m, hlinks, rfl⟩
    exact .link (hasBase_append_singleton.mpr (Or.inr ⟨rfl, hsome⟩)) (hlinks.append_singleton d)

end

end Document

/-! ### The hierarchy -/

namespace Hierarchy

open Document

variable {placed : List Document} {h : Hierarchy} {d : Document}

/-- What a hierarchy says of documents is the case. -/
structure IsOf (documents : List Document) (h : Hierarchy) : Prop where
  /-- The root is the first policy without a base. -/
  root : h.root = (documents.find? fun d => d.baseId? = none).map policyId
  /-- Every policy has a depth. -/
  known : ∀ d ∈ documents, ∃ n, h.depths.get? d.policyId = some n
  /-- The depth of a policy is the number of links to one without a base. -/
  depths (id : String) (n : Nat) : h.depths.get? id = some n ↔ BaseLinks documents id n
  parents (id base : String) : h.parents.get? id = some base ↔ HasBase documents id base
  /-- The policies that rest on one stand in the order of their documents. -/
  children (base : String) (ids : List String) :
    h.children.get? base = some ids ↔ restingOn documents base = ids ∧ ids ≠ []

theorem isOf_nil : IsOf [] {} where
  root := rfl
  known := by simp
  depths id n := by
    rw [baseLinks_iff]
    simp [HasBase]
  parents id base := by simp [HasBase]
  children base ids := by
    simp only [Fields.get?_nil, reduceCtorEq, false_iff, not_and, not_not]
    exact Eq.symm

/-- The policies that rest on one are those that are found for it, if there are any. -/
theorem IsOf.getD_children (hof : IsOf placed h) (base : String) :
    (h.children.get? base).getD [] = restingOn placed base := by
  cases hids : h.children.get? base with
  | some ids => exact ((hof.children base ids).mp hids).1.symm
  | none =>
    by_contra hne
    have hsome := (hof.children base _).mpr ⟨rfl, Ne.symm hne⟩
    rw [hids] at hsome
    cases hsome

/-- The depth of a base is there when that of a document is to be found. -/
theorem IsOf.exists_depth (hof : IsOf placed h) {base : String}
    (hbase : base ∈ placed.map policyId) : ∃ m, h.depths.get? base = some m := by
  obtain ⟨e, he, rfl⟩ := List.mem_map.mp hbase
  exact hof.known e he

/-- A hierarchy with depths that are right for one more document. -/
theorem IsOf.depths_set (hof : IsOf placed h) (hbases : HasAllBases placed)
    (hnew : d.policyId ∉ placed.map policyId) {depth : Nat}
    (hdepth : ∀ n, BaseLinks (placed ++ [d]) d.policyId n ↔ n = depth) :
    (∀ e ∈ placed ++ [d], ∃ n, (h.depths.set d.policyId depth).get? e.policyId = some n) ∧
    ∀ id n, (h.depths.set d.policyId depth).get? id = some n ↔ BaseLinks (placed ++ [d]) id n := by
  refine ⟨fun e he => ?_, fun id n => ?_⟩
  · rcases List.mem_append.mp he with he | he
    · have hne : e.policyId ≠ d.policyId := fun hid => hnew (hid ▸ List.mem_map_of_mem he)
      rw [Fields.get?_set_of_ne _ _ hne]
      exact hof.known e he
    · exact ⟨depth, by rw [List.mem_singleton.mp he, Fields.get?_set_self]⟩
  · by_cases hid : id = d.policyId
    · rw [hid, Fields.get?_set_self, hdepth, Option.some.injEq, eq_comm]
    · rw [Fields.get?_set_of_ne _ _ hid, hof.depths, baseLinks_append_iff_of_ne hnew hbases hid]

/-- **Step.**  A document is put into a hierarchy that its base is in. -/
theorem IsOf.add (hof : IsOf placed h) (hbases : HasAllBases placed)
    (hnew : d.policyId ∉ placed.map policyId)
    (hbase : ∀ base, d.baseId? = some base → base ∈ placed.map policyId) :
    IsOf (placed ++ [d]) (h.add d) := by
  unfold Hierarchy.add
  cases hbaseId : d.baseId? with
  | none =>
    obtain ⟨hknown, hdepths⟩ := hof.depths_set hbases hnew fun n =>
      baseLinks_append_self_iff_of_none hnew hbaseId
    refine ⟨?_, hknown, hdepths, fun id base => ?_, fun base ids => ?_⟩
    · rw [List.find?_append, Option.map_or, ← hof.root]
      cases h.root <;> simp [hbaseId]
    · rw [hasBase_append_singleton, hbaseId]
      simpa using hof.parents id base
    · rw [restingOn_append_singleton, hbaseId]
      simpa using hof.children base ids
  | some base =>
    have hthere : base ∈ placed.map policyId := hbase base hbaseId
    obtain ⟨m, hm⟩ := hof.exists_depth hthere
    have hdepth (n : Nat) : BaseLinks (placed ++ [d]) d.policyId n ↔
        n = (h.depths.get? base).getD 0 + 1 := by
      rw [baseLinks_append_self_iff_of_some hnew hbases hbaseId hthere, hm]
      simp only [← hof.depths, hm]
      simp
    obtain ⟨hknown, hdepths⟩ := hof.depths_set hbases hnew hdepth
    refine ⟨?_, hknown, hdepths, fun id other => ?_, fun other ids => ?_⟩
    · rw [List.find?_append, hof.root]
      simp [hbaseId]
    · rw [hasBase_append_singleton, hbaseId, Option.some.injEq]
      by_cases hid : id = d.policyId
      · subst hid
        rw [Fields.get?_set_self, Option.some.injEq]
        simp [not_hasBase_self hnew]
      · rw [Fields.get?_set_of_ne _ _ hid, hof.parents]
        simp [Ne.symm hid]
    · show (h.children.set base ((h.children.get? base).getD [] ++ [d.policyId])).get? other =
        some ids ↔ _
      rw [restingOn_append_singleton, hbaseId, hof.getD_children]
      by_cases hother : other = base
      · subst hother
        rw [Fields.get?_set_self, if_pos rfl, Option.some.injEq, iff_self_and]
        rintro rfl
        exact List.append_ne_nil_of_right_ne_nil _ (List.cons_ne_nil _ _)
      · rw [Fields.get?_set_of_ne _ _ hother, hof.children]
        simp [Ne.symm hother]

/-- **Run.**  Documents behind their bases have the hierarchy that is made from them. -/
theorem isOf_ofDocuments {documents : List Document} (hids : (documents.map policyId).Nodup)
    (hfirst : IsBaseFirst documents) : IsOf documents (ofDocuments documents) := by
  induction documents using List.reverseRecOn with
  | nil => exact isOf_nil
  | append_singleton placed d ih =>
    obtain ⟨hplaced, hbase⟩ := isBaseFirst_append_singleton.mp hfirst
    rw [List.map_append, List.nodup_append] at hids
    have hnew : d.policyId ∉ placed.map policyId := fun hd => hids.2.2 _ hd _ (by simp) rfl
    rw [ofDocuments, List.foldl_append]
    exact (ih hids.1 hplaced).add hplaced.hasAllBases hnew hbase

end Hierarchy

open Document

/-- **The hierarchy of documents in the order of inheritance.**  Whenever a document is put into
the hierarchy, the depth of its base is there.  Every policy then has a depth, which is the number
of links that lead from it to a policy without a base.  A policy has the base that its document
names; those that rest on a policy are exactly those that have it as their base, in the order of
their documents; and the root is the policy of the first document without a base. -/
theorem hierarchy_of_ordered {documents ordered : List Document}
    (h : orderByInheritance documents = .ok ordered) :
    (∀ before d after base, ordered = before ++ d :: after → d.baseId? = some base →
      ∃ n, (Hierarchy.ofDocuments before).depths.get? base = some n) ∧
    (Hierarchy.ofDocuments ordered).IsOf ordered ∧
    ∀ id base, (Hierarchy.ofDocuments ordered).parents.get? id = some base ↔
      ∃ ids, (Hierarchy.ofDocuments ordered).children.get? base = some ids ∧ id ∈ ids := by
  have houtcome := orderByInheritance_isOutcome documents
  rw [h] at houtcome
  obtain ⟨hids, -, hperm, hfirst, -⟩ := houtcome
  have hids : (ordered.map policyId).Nodup := (hperm.map policyId).nodup_iff.mpr hids
  have hof : (Hierarchy.ofDocuments ordered).IsOf ordered := Hierarchy.isOf_ofDocuments hids hfirst
  refine ⟨?_, hof, fun id base => ?_⟩
  · rintro before d after base rfl hbaseId
    rw [List.map_append, List.nodup_append] at hids
    have hbefore := Hierarchy.isOf_ofDocuments hids.1 hfirst.of_append
    exact hbefore.exists_depth (hfirst before d after rfl base hbaseId)
  · rw [hof.parents, ← mem_restingOn]
    constructor
    · intro hmem
      exact ⟨_, (hof.children base _).mpr ⟨rfl, List.ne_nil_of_mem hmem⟩, hmem⟩
    · rintro ⟨ids, hchildren, hmem⟩
      rwa [((hof.children base ids).mp hchildren).1]

/-- Five policies, each in front of what it rests on: two branches from one root, and a root of its
own. -/
def branches : List Document :=
  [⟨"leaf.xml", "Leaf", some "Branch", "", .null, ""⟩,
    ⟨"twig.xml", "Twig", some "Root", "", .null, ""⟩,
    ⟨"branch.xml", "Branch", some "Root", "", .null, ""⟩,
    ⟨"root.xml", "Root", none, "", .null, ""⟩,
    ⟨"other.xml", "Other", none, "", .null, ""⟩]

/-- These policies with the bases first. -/
def orderedBranches : List Document :=
  [⟨"root.xml", "Root", none, "", .null, ""⟩,
    ⟨"branch.xml", "Branch", some "Root", "", .null, ""⟩,
    ⟨"leaf.xml", "Leaf", some "Branch", "", .null, ""⟩,
    ⟨"twig.xml", "Twig", some "Root", "", .null, ""⟩,
    ⟨"other.xml", "Other", none, "", .null, ""⟩]

/-- The hierarchy of these policies. -/
theorem hierarchy_of_branches :
    orderByInheritance branches = .ok orderedBranches ∧
    (Hierarchy.ofDocuments orderedBranches).IsOf orderedBranches ∧
    Hierarchy.ofDocuments orderedBranches =
      { root := some "Root"
        parents := [("Branch", "Root"), ("Leaf", "Branch"), ("Twig", "Root")]
        children := [("Root", ["Branch", "Twig"]), ("Branch", ["Leaf"])]
        depths := [("Root", 0), ("Branch", 1), ("Leaf", 2), ("Twig", 1), ("Other", 0)] } := by
  have hordered : orderByInheritance branches = .ok orderedBranches := rfl
  exact ⟨hordered, (hierarchy_of_ordered hordered).2.1, by decide⟩

end TrustFramework
