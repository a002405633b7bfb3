import Mathlib.Data.List.Induction
import Mathlib.Data.List.Nodup
import TrustFramework.Proofs.Graph.Drawing
import TrustFramework.Proofs.Naming

/-!
# Names of nodes

A node whose identifier is taken gets the number of nodes behind it.  No two nodes are renamed
with the same number, so a new name can only be one that another node came with.  Nothing looks
whether it is.

## Main definitions

* `Graph.ofNodes` — a graph to which nodes were added.
* `Graph.Clashes` — how a new name can be one that is in use.

## Main results

* `Graph.mem_ids_ofNodes` — the identifiers in a graph are those that nodes came with, and new
  names.
* `Graph.node_ids_distinct_iff` — **identifiers are distinct unless a new name is in use.**
-/

namespace TrustFramework

namespace Graph

/-- A graph with more nodes, one after the other. -/
def addAll (g : Graph) (ns : List Node) : Graph := ns.foldl (fun g n => (g.addNode n).1) g

/-- A graph of some nodes. -/
def ofNodes (ns : List Node) : Graph := addAll {} ns

theorem isSome_node?_iff {g : Graph} {id : String} : (g.node? id).isSome ↔ id ∈ g.ids := by
  simp [node?, ids]

@[simp] theorem ofNodes_append_singleton (ns : List Node) (n : Node) :
    ofNodes (ns ++ [n]) = ((ofNodes ns).addNode n).1 := by
  simp [ofNodes, addAll]

@[simp] theorem length_nodes_ofNodes (ns : List Node) : (ofNodes ns).nodes.length = ns.length := by
  induction ns using List.reverseRecOn with
  | nil => rfl
  | append_singleton ns n ih => simp [addNode, ih]

/-- The name that a node gets behind others. -/
def nameAfter (before : List Node) (n : Node) : String :=
  if n.id ∈ (ofNodes before).ids then n.id ++ "-" ++ toString before.length else n.id

theorem ids_ofNodes_append_singleton (ns : List Node) (n : Node) :
    (ofNodes (ns ++ [n])).ids = (ofNodes ns).ids ++ [nameAfter ns n] := by
  have hadmitted : ((ofNodes ns).admitted n).id = nameAfter ns n := by
    simp only [admitted, isSome_node?_iff, length_nodes_ofNodes, nameAfter]
    split <;> rfl
  rw [ofNodes_append_singleton, ids, addNode, List.map_append, List.map_singleton, hadmitted]
  rfl

/-- What holds of every place in a list and at its end holds of every place in the longer list. -/
theorem forall_place_append_singleton {α : Type} {p : List α → α → Prop} {xs : List α} {x : α} :
    (∀ before y after, xs ++ [x] = before ++ y :: after → p before y) ↔
      (∀ before y after, xs = before ++ y :: after → p before y) ∧ p xs x := by
  constructor
  · intro h
    exact ⟨fun before y after hxs => h before y (after ++ [x]) (by simp [hxs]), h xs x [] rfl⟩
  · rintro ⟨h, hx⟩ before y after hplace
    obtain rfl | ⟨after, z, rfl⟩ := List.eq_nil_or_concat after
    · obtain ⟨rfl, rfl⟩ := List.append_singleton_inj.mp hplace
      exact hx
    · rw [List.concat_eq_append, ← List.cons_append, ← List.append_assoc] at hplace
      exact h before y after (List.append_singleton_inj.mp hplace).1

/-- The identifiers in a graph are those that nodes came with, and new names of nodes whose
identifier was taken. -/
theorem mem_ids_ofNodes {ns : List Node} {id : String} (h : id ∈ (ofNodes ns).ids) :
    id ∈ ns.map Node.id ∨
      ∃ (n : Node) (k : Nat), k < ns.length ∧ id = n.id ++ "-" ++ toString k := by
  induction ns using List.reverseRecOn with
  | nil => cases h
  | append_singleton ns n ih =>
    rw [ids_ofNodes_append_singleton, List.mem_append, List.mem_singleton] at h
    rw [List.map_append, List.mem_append, List.length_append]
    obtain h | rfl := h
    · obtain h | ⟨m, k, hk, rfl⟩ := ih h
      · exact Or.inl (Or.inl h)
      · exact Or.inr ⟨m, k, Nat.lt_succ_of_lt hk, rfl⟩
    · rw [nameAfter]
      split
      · exact Or.inr ⟨n, ns.length, Nat.lt_succ_self _, rfl⟩
      · exact Or.inl (Or.inr (by simp))

/-- The identifier that a node came with is in use. -/
theorem mem_ids_ofNodes_of_mem {ns : List Node} {n : Node} (h : n ∈ ns) :
    n.id ∈ (ofNodes ns).ids := by
  induction ns using List.reverseRecOn with
  | nil => cases h
  | append_singleton ns m ih =>
    rw [ids_ofNodes_append_singleton, List.mem_append, List.mem_singleton]
    rcases List.mem_append.mp h with h | h
    · exact Or.inl (ih h)
    · obtain rfl := List.mem_singleton.mp h
      by_cases htaken : n.id ∈ (ofNodes ns).ids
      · exact Or.inl htaken
      · exact Or.inr (if_neg htaken).symm

/-- A node gets a name that is in use: its identifier is taken, and with the number of the nodes
behind, it is one that a node before it came with. -/
def Clashes (before : List Node) (n : Node) : Prop :=
  n.id ∈ (ofNodes before).ids ∧ n.id ++ "-" ++ toString before.length ∈ before.map Node.id

theorem nameAfter_mem_iff {before : List Node} {n : Node} :
    nameAfter before n ∈ (ofNodes before).ids ↔ Clashes before n := by
  rw [nameAfter, Clashes]
  split
  · next htaken =>
    refine ⟨fun h => ⟨htaken, ?_⟩, fun ⟨_, h⟩ => ?_⟩
    · obtain h | ⟨m, k, hk, heq⟩ := mem_ids_ofNodes h
      · exact h
      -- no node before got a name with this number
      · exact absurd (numbered_inj.mp heq).2 (Nat.ne_of_gt hk)
    · obtain ⟨m, hm, heq⟩ := List.mem_map.mp h
      exact heq ▸ mem_ids_ofNodes_of_mem hm
  · next hfree => exact ⟨fun h => absurd h hfree, fun h => absurd h.1 hfree⟩

/-- The identifiers of nodes are distinct if no node gets a name that is in use. -/
theorem nodup_ids_ofNodes_iff {ns : List Node} :
    (ofNodes ns).ids.Nodup ↔ ∀ before n after, ns = before ++ n :: after → ¬ Clashes before n := by
  induction ns using List.reverseRecOn with
  | nil => simp [ofNodes, addAll, ids]
  | append_singleton ns n ih =>
    rw [ids_ofNodes_append_singleton, forall_place_append_singleton, ← ih, ← nameAfter_mem_iff,
      List.nodup_append_comm, List.singleton_append, List.nodup_cons, and_comm]

/-- The nodes of a drawn journey were added one after the other. -/
theorem exists_nodes_drawJourney (atlas : Atlas) (journey : Value) :
    ∃ ns, (atlas.drawJourney journey).graph.nodes = (ofNodes ns).nodes := by
  refine Atlas.drawSteps_induction (motive := fun d => ∃ ns, d.graph.nodes = (ofNodes ns).nodes)
    ?_ ?_ ?_ _ _ _ _ ⟨[], rfl⟩
  · rintro d n ⟨ns, hns⟩
    exact ⟨ns ++ [n], by simp [Drawing.addNode, addNode, admitted, node?, hns]⟩
  · rintro d source target handle ⟨ns, hns⟩
    refine ⟨ns, ?_⟩
    rw [← hns, Drawing.connect, connect, addEdge]
    split <;> rfl
  · rintro d warning - ⟨ns, hns⟩
    exact ⟨ns, hns⟩

/-- **Identifiers are distinct unless a new name is in use.**  Nodes are added one after the
other, also those of a journey that is drawn, and their identifiers are distinct if and only if no
node whose identifier is taken becomes, with the number of nodes behind, what another came
with. -/
theorem node_ids_distinct_iff (ns : List Node) (atlas : Atlas) (journey : Value) :
    ((ofNodes ns).ids.Nodup ↔ ∀ before n after, ns = before ++ n :: after → ¬ Clashes before n) ∧
    ∃ drawn, (atlas.drawJourney journey).graph.nodes = (ofNodes drawn).nodes ∧
      ((atlas.drawJourney journey).graph.ids.Nodup ↔
        ∀ before n after, drawn = before ++ n :: after → ¬ Clashes before n) := by
  refine ⟨nodup_ids_ofNodes_iff, ?_⟩
  obtain ⟨drawn, hdrawn⟩ := exists_nodes_drawJourney atlas journey
  refine ⟨drawn, hdrawn, ?_⟩
  rw [ids, hdrawn]
  exact nodup_ids_ofNodes_iff

/-! ### A journey with a clash -/

/-- A step of a journey. -/
def stepElement (order kind : String) (more : Fields Value) : Value :=
  .object ([("@_Order", .text order), ("@_Type", .text kind)] ++ more)

/-- What a step has that calls a sub-journey. -/
def calling (id : String) : Fields Value :=
  [("JourneyList", .object [("Candidate", .object [("@_SubJourneyReferenceId", .text id)])])]

/-- A journey of some steps. -/
def journeyElement (id : String) (steps : List Value) : Value :=
  .object [("@_Id", .text id),
    ("OrchestrationSteps", .object [("OrchestrationStep", .list steps)])]

/-- A policy with one sub-journey, which is called as a second step of number 2 would be after five
nodes. -/
def clashing : Atlas where
  root := .object [("SubJourneys", .object
    [("SubJourney", .list [journeyElement "Step2-5" []])])]

/-- A journey that calls this sub-journey, and has two steps of number 2. -/
def clashingJourney : Value :=
  journeyElement "J" [stepElement "1" "InvokeSubJourney" (calling "Step2-5"),
    stepElement "2" "ClaimsExchange" [], stepElement "2" "SendClaims" []]

/-- **A new name may be in use.**  The third node becomes what the first came with; and in the
graph of a journey, the second step of number 2 becomes what the sub-journey is called. -/
theorem node_ids_clash :
    ¬ (ofNodes [⟨"a-2", .start, [], none⟩, ⟨"a", .start, [], none⟩,
      ⟨"a", .start, [], none⟩]).ids.Nodup ∧
    ¬ (clashing.drawJourney clashingJourney).graph.ids.Nodup := by
  refine ⟨by decide, ?_⟩
  have hids : (clashing.drawJourney clashingJourney).graph.ids =
      ["root-start", "Step2-5", "Step2-5-start", "Step2-5-end", "Step2", "Step2-5",
        "root-end"] := by
    rw [Atlas.drawJourney, OrchestrationStep.readAll_of_ordered (by decide)]
    decide +kernel
  rw [hids]
  decide

end Graph

end TrustFramework
