import TrustFramework.Proofs.Inheritance.Order

/-!
# Documents in one chain

Documents form one chain if one of them has no base, every other rests on one of them, and no two
rest on the same.  Then only one order puts every document behind its base: each stands right
behind the one it rests on.  So the order in which the documents came is forgotten once they are
put in order.

The conditions leave room for a circle beside the chain.  Documents with a circle have no order,
however they came.

## Main definitions

* `Document.FormChain` — documents that rest on each other one by one.
* `Document.RestsOn` — a document names the policy of another one as its base.

## Main results

* `Document.isChain_of_isBaseFirst` — behind its base means right behind its base.
* `Document.eq_of_perm_of_isBaseFirst` — **a chain has one order in which all bases come first.**
* `Document.FormChain.orderByInheritance_of_perm` — **ordering a chain forgets how its documents
  came.**
-/

namespace TrustFramework
namespace Document

variable {documents others : List Document}

/-- A document names the policy of another one as its base. -/
def RestsOn (base d : Document) : Prop := d.baseId? = some base.policyId

/-- Documents of distinct policies that rest on each other one by one: one has no base, every
other rests on one of them, and no two rest on the same. -/
structure FormChain (documents : List Document) : Prop where
  distinct : (documents.map policyId).Nodup
  root : none ∈ documents.map baseId?
  bases : HasAllBases documents
  single : (documents.map baseId?).Nodup

theorem HasAllBases.perm (hbases : HasAllBases documents) (hperm : documents.Perm others) :
    HasAllBases others := by
  intro d hd base hbase
  exact (hperm.map policyId).mem_iff.mp (hbases d (hperm.mem_iff.mpr hd) base hbase)

/-- The policy of a document and its base. -/
def tie (d : Document) : String × Option String := (d.policyId, d.baseId?)

/-- Whether documents form a chain can be seen from their policies and bases. -/
theorem formChain_of_ties {ties : List (String × Option String)} (h : documents.map tie = ties)
    (hdistinct : (ties.map Prod.fst).Nodup) (hroot : none ∈ ties.map Prod.snd)
    (hbases : ∀ t ∈ ties, ∀ base ∈ t.2, base ∈ ties.map Prod.fst)
    (hsingle : (ties.map Prod.snd).Nodup) : FormChain documents := by
  have hpolicies : ties.map Prod.fst = documents.map policyId := by
    rw [← h, List.map_map]
    rfl
  have hbaseIds : ties.map Prod.snd = documents.map baseId? := by
    rw [← h, List.map_map]
    rfl
  rw [hpolicies] at hdistinct hbases
  rw [hbaseIds] at hroot hsingle
  exact ⟨hdistinct, hroot, fun d hd => hbases (tie d) (h ▸ List.mem_map_of_mem hd), hsingle⟩

theorem FormChain.perm (h : FormChain documents) (hperm : documents.Perm others) :
    FormChain others where
  distinct := (hperm.map policyId).nodup_iff.mp h.distinct
  root := (hperm.map baseId?).mem_iff.mp h.root
  bases := h.bases.perm hperm
  single := (hperm.map baseId?).nodup_iff.mp h.single

/-! ### One order -/

/-- The first of documents that stand behind their bases has no base. -/
theorem IsBaseFirst.baseId?_head {d : Document} (h : IsBaseFirst (d :: documents)) :
    d.baseId? = none := by
  cases hbase : d.baseId? with
  | none => rfl
  | some base => exact absurd (h [] d documents rfl base hbase) List.not_mem_nil

/-- Of documents that stand behind their bases the first has none, so that one which shares no
base with them has a base. -/
theorem IsBaseFirst.exists_baseId? (h : IsBaseFirst documents) (hne : documents ≠ [])
    {d : Document} (hnew : ∀ e ∈ documents, e.baseId? ≠ d.baseId?) :
    ∃ base, d.baseId? = some base := by
  obtain _ | ⟨first, documents⟩ := documents
  · exact absurd rfl hne
  have hfirst := hnew first List.mem_cons_self
  rw [h.baseId?_head] at hfirst
  exact Option.ne_none_iff_exists'.mp (Ne.symm hfirst)

/-- **Documents behind their bases, of which no two rest on the same, stand right behind them.**
Behind a document that is further away stands one already that rests on it. -/
theorem isChain_of_isBaseFirst (hsingle : (documents.map baseId?).Nodup)
    (hfirst : IsBaseFirst documents) : documents.IsChain RestsOn := by
  induction documents using List.reverseRecOn with
  | nil => exact List.isChain_nil
  | append_singleton documents d ih =>
    obtain ⟨hfirst, hbase⟩ := isBaseFirst_append_singleton.mp hfirst
    rw [List.map_append, List.nodup_append] at hsingle
    have hnew : ∀ e ∈ documents, e.baseId? ≠ d.baseId? := fun e he =>
      hsingle.2.2 _ (List.mem_map_of_mem he) _ (by simp)
    have hchain := ih hsingle.1 hfirst
    obtain rfl | hne := eq_or_ne documents []
    · exact List.isChain_singleton d
    obtain ⟨base, hbaseId⟩ := hfirst.exists_baseId? hne hnew
    obtain ⟨e, he, rfl⟩ := List.mem_map.mp (hbase base hbaseId)
    obtain ⟨before, after, rfl⟩ := List.append_of_mem he
    obtain _ | ⟨next, after⟩ := after
    · rw [List.append_assoc]
      exact List.isChain_append_cons_cons.mpr ⟨hchain, hbaseId, List.isChain_singleton d⟩
    · have hnext : RestsOn e next := (List.isChain_append_cons_cons.mp hchain).2.1
      exact absurd (hnext.trans hbaseId.symm) (hnew next (by simp))

/-- Two chains of the same documents that begin alike are the same. -/
theorem eq_of_isChain (hsingle : (documents.map baseId?).Nodup) (hperm : documents.Perm others)
    (hchain : documents.IsChain RestsOn) (hchain' : others.IsChain RestsOn)
    (hhead : documents.head?.map baseId? = others.head?.map baseId?) : documents = others := by
  induction documents generalizing others with
  | nil => exact (List.nil_perm.mp hperm).symm
  | cons d documents ih =>
    obtain _ | ⟨e, others⟩ := others
    · cases hperm.length_eq
    have hde : d = e := by
      refine List.inj_on_of_nodup_map hsingle List.mem_cons_self
        (hperm.mem_iff.mpr List.mem_cons_self) ?_
      simpa using hhead
    subst hde
    rw [ih (List.nodup_cons.mp hsingle).2 hperm.cons_inv hchain.tail hchain'.tail ?_]
    -- what comes next rests on the same document on both sides
    have hlength := hperm.cons_inv.length_eq
    obtain _ | ⟨next, documents⟩ := documents <;> obtain _ | ⟨next', others⟩ := others
    · rfl
    · cases hlength
    · cases hlength
    · have hnext : next.baseId? = some d.policyId := (List.isChain_cons_cons.mp hchain).1
      have hnext' : next'.baseId? = some d.policyId := (List.isChain_cons_cons.mp hchain').1
      simp [hnext, hnext']

/-- **A chain has one order in which every document stands behind its base.** -/
theorem eq_of_perm_of_isBaseFirst (hsingle : (documents.map baseId?).Nodup)
    (hperm : documents.Perm others) (hfirst : IsBaseFirst documents)
    (hfirst' : IsBaseFirst others) : documents = others := by
  have hchain := isChain_of_isBaseFirst hsingle hfirst
  have hchain' := isChain_of_isBaseFirst ((hperm.map baseId?).nodup_iff.mp hsingle) hfirst'
  refine eq_of_isChain hsingle hperm hchain hchain' ?_
  obtain _ | ⟨d, documents⟩ := documents <;> obtain _ | ⟨e, others⟩ := others
  · rfl
  · cases hperm.length_eq
  · cases hperm.length_eq
  · simp [hfirst.baseId?_head, hfirst'.baseId?_head]

/-! ### Ordering -/

/-- A chain is put in order, or has a circle beside it. -/
theorem FormChain.orderByInheritance (h : FormChain documents) :
    (∃ ordered, orderByInheritance documents = .ok ordered ∧ ordered.Perm documents ∧
      IsBaseFirst ordered) ∨
    ∃ circle, orderByInheritance documents = .error (.cycle circle) ∧
      IsCircle documents circle := by
  have houtcome := orderByInheritance_isOutcome documents
  cases horder : TrustFramework.orderByInheritance documents with
  | ok ordered =>
    rw [horder] at houtcome
    exact Or.inl ⟨ordered, rfl, houtcome.2.2.1, houtcome.2.2.2.1⟩
  | error fault =>
    rw [horder] at houtcome
    cases fault with
    | duplicatePolicy => exact absurd h.distinct houtcome.1
    | missingBase id base file =>
      obtain ⟨-, d, hd, -, -, hbase, habsent⟩ := houtcome
      exact absurd (h.bases d hd base hbase) habsent
    | cycle circle => exact Or.inr ⟨circle, rfl, houtcome.2.2⟩
    | _ => exact houtcome.elim

/-- Documents with a circle have no order, however they came. -/
theorem not_isCircle_of_perm (hids : (documents.map policyId).Nodup)
    (hperm : others.Perm documents) (hfirst : IsBaseFirst others) {circle : List String} :
    ¬ IsCircle documents circle := by
  intro hcircle
  obtain ⟨d, hd, hreach⟩ := hcircle.exists_transGen
  exact not_transGen_of_perm hperm hids hfirst d hd hreach

/-- **Ordering a chain forgets how its documents came.** -/
theorem FormChain.orderByInheritance_of_perm (h : FormChain documents)
    (hperm : documents.Perm others) :
    (∃ ordered, TrustFramework.orderByInheritance documents = .ok ordered ∧
      TrustFramework.orderByInheritance others = .ok ordered) ∨
    ∃ circle circle', TrustFramework.orderByInheritance documents = .error (.cycle circle) ∧
      TrustFramework.orderByInheritance others = .error (.cycle circle') := by
  have h' := h.perm hperm
  obtain ⟨ordered, horder, hordered, hfirst⟩ | ⟨circle, horder, hcircle⟩ :=
      h.orderByInheritance <;>
    obtain ⟨ordered', horder', hordered', hfirst'⟩ | ⟨circle', horder', hcircle'⟩ :=
      h'.orderByInheritance
  · have hsame : ordered = ordered' :=
      eq_of_perm_of_isBaseFirst ((hordered.map baseId?).nodup_iff.mpr h.single)
        (hordered.trans (hperm.trans hordered'.symm)) hfirst hfirst'
    exact Or.inl ⟨ordered, horder, hsame ▸ horder'⟩
  · exact absurd hcircle' (not_isCircle_of_perm h'.distinct (hordered.trans hperm) hfirst)
  · exact absurd hcircle (not_isCircle_of_perm h.distinct (hordered'.trans hperm.symm) hfirst')
  · exact Or.inr ⟨circle, circle', horder, horder'⟩

end Document
end TrustFramework
