import Mathlib.Data.List.Nodup
import Mathlib.Logic.Relation
import TrustFramework.Proofs.Graph.Drawing
import TrustFramework.Proofs.Graph.Links

/-!
# Levels of a graph

The steps of one journey are drawn on one level: between a start and an end, they are stations on
the way.  A station has the node of its step and, if the step has preconditions, a node for them
before it.  From every node of a level, edges go on to the next station, or to the end behind the
last; from the node of preconditions, one goes into its own step and one past it.

## Main definitions

* `Station`, `Level` — what is drawn of a step, and of the steps of a journey.
* `Level.links` — the edges of a level in the order in which they are drawn.
* `Fan`, `Level.fans` — the nodes of a level, each with the edges that leave it.

## Main results

* `Level.links_perm` — the edges of a level are those of its fans.
* `nodup_id_links`, `filter_source_links` — the edges of fans are distinct, and those that leave a
  node are the ones of its fan.
* `Level.leads` — **from the start of a level every node is reached, and from every node the
  end.**
-/

namespace TrustFramework

open Atlas (gateOf)
open Relation (ReflTransGen)

/-! ### Stations -/

/-- What is drawn of a step. -/
structure Station where
  step : OrchestrationStep
  /-- The node of the step, or the group of what it calls. -/
  node : Graph.Node
  /-- The node of the preconditions, and the branch that leads from it into the step. -/
  condition : Option (Graph.Node × Bool)

namespace Station

/-- The node by which a step is entered. -/
def entry (x : Station) : Graph.Node := (x.condition.map Prod.fst).getD x.node

/-- The nodes of a station. -/
def nodes (x : Station) : List Graph.Node := x.node :: (x.condition.map Prod.fst).toList

/-- Where the edges to the next station start. -/
def exits (x : Station) : Exits :=
  (x.node.id, none) :: (x.condition.map fun c => (c.1.id, some (gateOf !c.2))).toList

/-- The edge from the preconditions into the step. -/
def inward (x : Station) : List Graph.Edge :=
  (x.condition.map fun c => Graph.link c.1.id x.node.id (some (gateOf c.2))).toList

end Station

/-! ### Levels -/

/-- What is drawn of the steps of a journey. -/
structure Level where
  parent : Option String
  start : Graph.Node
  stations : List Station
  finish : Graph.Node

/-- The edges from some exits to a node. -/
def linkAll (exits : Exits) (target : String) : List Graph.Edge :=
  exits.map fun exit => Graph.link exit.1 target exit.2

/-- The node by which the first of some stations is entered, or the end if there is none. -/
def entryFrom (finish : Graph.Node) (stations : List Station) : Graph.Node :=
  (stations.head?.map Station.entry).getD finish

/-- The edges from some exits on, through some stations to the end. -/
def linksFrom (finish : Graph.Node) : Exits → List Station → List Graph.Edge
  | exits, [] => linkAll exits finish.id
  | exits, x :: rest =>
    linkAll exits x.entry.id ++ (x.inward ++ linksFrom finish x.exits rest)

namespace Level

/-- The steps that are drawn on a level. -/
def steps (l : Level) : List OrchestrationStep := l.stations.map Station.step

/-- The nodes of a level. -/
def nodes (l : Level) : List Graph.Node :=
  l.start :: (l.stations.flatMap Station.nodes ++ [l.finish])

/-- The edges of a level. -/
def links (l : Level) : List Graph.Edge := linksFrom l.finish [(l.start.id, none)] l.stations

end Level

/-! ### Fans -/

/-- A node with the edges that leave it: by which handles, and where to. -/
structure Fan where
  node : Graph.Node
  outs : List (Option String × String)

namespace Fan

/-- The edges that leave the node of a fan. -/
def links (r : Fan) : List Graph.Edge := r.outs.map fun out => Graph.link r.node.id out.2 out.1

/-- The handles of a fan are distinct and have ordinary names, and so has its node a plain one. -/
structure IsSound (r : Fan) : Prop where
  plain : IsPlain r.node.id
  nodup : (r.outs.map Prod.fst).Nodup
  handles : ∀ out ∈ r.outs, ∀ handle ∈ out.1, IsOrdinary handle

end Fan

/-- The fans of a station, if the next one is entered by a node. -/
def Station.fans (x : Station) (next : String) : List Fan :=
  ⟨x.node, [(none, next)]⟩ ::
    (x.condition.map fun c =>
      Fan.mk c.1 [(some (gateOf c.2), x.node.id), (some (gateOf !c.2), next)]).toList

/-- The fans of some stations and the end. -/
def fansFrom (finish : Graph.Node) : List Station → List Fan
  | [] => [⟨finish, []⟩]
  | x :: rest => x.fans (entryFrom finish rest).id ++ fansFrom finish rest

/-- The fans of a level. -/
def Level.fans (l : Level) : List Fan :=
  ⟨l.start, [(none, (entryFrom l.finish l.stations).id)]⟩ :: fansFrom l.finish l.stations

@[simp] theorem Station.map_node_fans (x : Station) (next : String) :
    (x.fans next).map Fan.node = x.nodes := by
  unfold Station.fans Station.nodes
  cases x.condition <;> rfl

theorem map_node_fansFrom (finish : Graph.Node) (stations : List Station) :
    (fansFrom finish stations).map Fan.node = stations.flatMap Station.nodes ++ [finish] := by
  induction stations with
  | nil => rfl
  | cons x rest ih => simp [fansFrom, ih]

@[simp] theorem Level.map_node_fans (l : Level) : l.fans.map Fan.node = l.nodes := by
  simp [Level.fans, Level.nodes, map_node_fansFrom]

/-- The edges that leave the nodes of a station are the one inside it and those that go on. -/
theorem Station.links_perm (x : Station) (next : String) :
    (x.inward ++ linkAll x.exits next).Perm ((x.fans next).flatMap Fan.links) := by
  unfold Station.inward Station.exits Station.fans linkAll Fan.links
  cases x.condition with
  | none => exact List.Perm.refl _
  | some c => exact List.Perm.swap _ _ _

theorem linksFrom_perm (finish : Graph.Node) (exits : Exits) (stations : List Station) :
    (linksFrom finish exits stations).Perm
      (linkAll exits (entryFrom finish stations).id ++
        (fansFrom finish stations).flatMap Fan.links) := by
  induction stations generalizing exits with
  | nil => simp [linksFrom, fansFrom, entryFrom, Fan.links]
  | cons x rest ih =>
    -- the edges from a station on are drawn only when the next one is
    rw [linksFrom, fansFrom, List.flatMap_append]
    refine List.Perm.append_left _ (((ih x.exits).append_left x.inward).trans ?_)
    rw [← List.append_assoc]
    exact (x.links_perm _).append_right _

/-- The edges of a level are those of its fans. -/
theorem Level.links_perm (l : Level) : l.links.Perm (l.fans.flatMap Fan.links) :=
  linksFrom_perm l.finish _ l.stations

/-- The fans of a station are among those of all. -/
theorem mem_fansFrom {finish : Graph.Node} {before after : List Station} {x : Station} {r : Fan}
    (h : r ∈ x.fans (entryFrom finish after).id) : r ∈ fansFrom finish (before ++ x :: after) := by
  induction before with
  | nil => exact List.mem_append_left _ h
  | cons y before ih => exact List.mem_append_right _ ih

theorem finish_mem_fansFrom (finish : Graph.Node) (stations : List Station) :
    ⟨finish, []⟩ ∈ fansFrom finish stations := by
  induction stations with
  | nil => exact List.mem_singleton_self _
  | cons x rest ih => exact List.mem_append_right _ ih

theorem gateOf_not_ne (into : Bool) : gateOf (!into) ≠ gateOf into := by
  cases into <;> decide

theorem isOrdinary_gateOf (into : Bool) : IsOrdinary (gateOf into) := by
  cases into <;> exact ⟨by decide, by decide⟩

/-- The fans of a level are sound if its nodes have plain names. -/
theorem Level.isSound_of_mem_fans {l : Level} (hplain : ∀ n ∈ l.nodes, IsPlain n.id) {r : Fan}
    (h : r ∈ l.fans) : r.IsSound := by
  have hnode : IsPlain r.node.id := hplain _ (l.map_node_fans ▸ List.mem_map_of_mem h)
  have hfan {target : String} (hr : r.outs = [(none, target)]) : r.IsSound :=
    ⟨hnode, by simp [hr], by simp [hr]⟩
  rcases List.mem_cons.mp h with rfl | h
  · exact hfan rfl
  · generalize l.stations = stations at h
    induction stations with
    | nil =>
      obtain rfl := List.mem_singleton.mp h
      exact ⟨hnode, List.nodup_nil, by simp⟩
    | cons x rest ih =>
      rcases List.mem_append.mp h with h | h
      · rcases List.mem_cons.mp h with rfl | h
        · exact hfan rfl
        · obtain ⟨c, -, rfl⟩ := Option.map_eq_some_iff.mp (Option.mem_toList.mp h)
          refine ⟨hnode, ?_, ?_⟩
          · simpa using (gateOf_not_ne c.2).symm
          · simpa using ⟨isOrdinary_gateOf c.2, isOrdinary_gateOf !c.2⟩
      · exact ih h

/-! ### Ways through a level -/

theorem entry_mem_nodes (x : Station) : x.entry ∈ x.nodes := by
  unfold Station.entry Station.nodes
  cases x.condition with
  | none => exact List.mem_singleton_self _
  | some c => simp

theorem entryFrom_mem (finish : Graph.Node) (stations : List Station) :
    entryFrom finish stations ∈ stations.flatMap Station.nodes ++ [finish] := by
  cases stations with
  | nil => exact List.mem_singleton_self _
  | cons x rest => exact List.mem_append_left _ (List.mem_append_left _ (entry_mem_nodes x))

/-- The edges of a level lead to nodes of the level. -/
theorem Level.exists_target {l : Level} {r : Fan} (h : r ∈ l.fans) {out : Option String × String}
    (hout : out ∈ r.outs) : ∃ n ∈ l.nodes, n.id = out.2 := by
  -- no edge leads to the start, so that the induction is on what is behind it
  have hall {stations : List Station} (h : r ∈ fansFrom l.finish stations) :
      ∃ n ∈ stations.flatMap Station.nodes ++ [l.finish], n.id = out.2 := by
    induction stations with
    | nil =>
      obtain rfl := List.mem_singleton.mp h
      cases hout
    | cons x rest ih =>
      have hnext : entryFrom l.finish rest ∈ (x :: rest).flatMap Station.nodes ++ [l.finish] := by
        rw [List.flatMap_cons, List.append_assoc]
        exact List.mem_append_right _ (entryFrom_mem l.finish rest)
      rcases List.mem_append.mp h with h | h
      · rcases List.mem_cons.mp h with rfl | h
        · obtain rfl := List.mem_singleton.mp hout
          exact ⟨_, hnext, rfl⟩
        · obtain ⟨c, -, rfl⟩ := Option.map_eq_some_iff.mp (Option.mem_toList.mp h)
          rcases List.mem_cons.mp hout with rfl | hout
          · exact ⟨x.node, by simp [Station.nodes], rfl⟩
          · obtain rfl := List.mem_singleton.mp hout
            exact ⟨_, hnext, rfl⟩
      · obtain ⟨n, hn, hid⟩ := ih h
        rw [List.flatMap_cons, List.append_assoc]
        exact ⟨n, List.mem_append_right _ hn, hid⟩
  rcases List.mem_cons.mp h with rfl | h
  · obtain rfl := List.mem_singleton.mp hout
    exact ⟨_, List.mem_cons_of_mem _ (entryFrom_mem l.finish l.stations), rfl⟩
  · obtain ⟨n, hn, hid⟩ := hall h
    exact ⟨n, List.mem_cons_of_mem _ hn, hid⟩

section

variable {goes : String → String → Prop} {finish : Graph.Node}

/-- From the entry of a station its nodes are reached, and from these the next station. -/
theorem Station.leads {x : Station} {next : String}
    (hfans : ∀ r ∈ x.fans next, ∀ out ∈ r.outs, goes r.node.id out.2) {n : Graph.Node}
    (hn : n ∈ x.nodes) : ReflTransGen goes x.entry.id n.id ∧ ReflTransGen goes n.id next := by
  have hnode : goes x.node.id next := hfans _ List.mem_cons_self (none, next) (by simp)
  unfold Station.nodes at hn
  unfold Station.entry
  unfold Station.fans at hfans
  cases hcondition : x.condition with
  | none =>
    rw [hcondition] at hn
    obtain rfl := List.mem_singleton.mp hn
    exact ⟨ReflTransGen.refl, ReflTransGen.single hnode⟩
  | some c =>
    rw [hcondition] at hn hfans
    have hinto : goes c.1.id x.node.id :=
      hfans ⟨c.1, [(some (gateOf c.2), x.node.id), (some (gateOf !c.2), next)]⟩ (by simp)
        (some (gateOf c.2), x.node.id) (by simp)
    rcases List.mem_cons.mp hn with rfl | hn
    · exact ⟨ReflTransGen.single hinto, ReflTransGen.single hnode⟩
    · obtain rfl := List.mem_singleton.mp hn
      exact ⟨ReflTransGen.refl, ReflTransGen.head hinto (ReflTransGen.single hnode)⟩

/-- From the first station all nodes are reached, and from these the end. -/
theorem leads_of_mem {stations : List Station}
    (hfans : ∀ r ∈ fansFrom finish stations, ∀ out ∈ r.outs, goes r.node.id out.2) {n : Graph.Node}
    (hn : n ∈ stations.flatMap Station.nodes ++ [finish]) :
    ReflTransGen goes (entryFrom finish stations).id n.id ∧ ReflTransGen goes n.id finish.id := by
  induction stations generalizing n with
  | nil =>
    obtain rfl := List.mem_singleton.mp hn
    exact ⟨ReflTransGen.refl, ReflTransGen.refl⟩
  | cons x rest ih =>
    have hx {n : Graph.Node} (hn : n ∈ x.nodes) : ReflTransGen goes x.entry.id n.id ∧
        ReflTransGen goes n.id (entryFrom finish rest).id :=
      Station.leads (fun r hr => hfans r (List.mem_append_left _ hr)) hn
    have hrest {n : Graph.Node} (hn : n ∈ rest.flatMap Station.nodes ++ [finish]) :
        ReflTransGen goes (entryFrom finish rest).id n.id ∧ ReflTransGen goes n.id finish.id :=
      ih (fun r hr => hfans r (List.mem_append_right _ hr)) hn
    have hnext : ReflTransGen goes x.entry.id (entryFrom finish rest).id :=
      (hx (entry_mem_nodes x)).2
    rw [List.flatMap_cons, List.append_assoc] at hn
    rcases List.mem_append.mp hn with hn | hn
    · exact ⟨(hx hn).1, (hx hn).2.trans (hrest (entryFrom_mem finish rest)).2⟩
    · exact ⟨hnext.trans (hrest hn).1, (hrest hn).2⟩

/-- **From the start of a level every node is reached, and from every node the end.** -/
theorem Level.leads {l : Level}
    (hfans : ∀ r ∈ l.fans, ∀ out ∈ r.outs, goes r.node.id out.2) {n : Graph.Node}
    (hn : n ∈ l.nodes) :
    ReflTransGen goes l.start.id n.id ∧ ReflTransGen goes n.id l.finish.id := by
  have hstart : goes l.start.id (entryFrom l.finish l.stations).id :=
    hfans _ List.mem_cons_self (none, (entryFrom l.finish l.stations).id) (by simp)
  have hall {n : Graph.Node} (hn : n ∈ l.stations.flatMap Station.nodes ++ [l.finish]) :
      ReflTransGen goes (entryFrom l.finish l.stations).id n.id ∧
        ReflTransGen goes n.id l.finish.id :=
    leads_of_mem (fun r hr => hfans r (List.mem_cons_of_mem _ hr)) hn
  rcases List.mem_cons.mp hn with rfl | hn
  · exact ⟨ReflTransGen.refl,
      ReflTransGen.head hstart (hall (entryFrom_mem l.finish l.stations)).2⟩
  · exact ⟨ReflTransGen.head hstart (hall hn).1, (hall hn).2⟩

end

/-! ### Edges of fans -/

/-- What comes of one of some items, found by a key that items and what comes of them share. -/
theorem filter_flatMap_of_mem {α β κ : Type} [DecidableEq κ] {key : α → κ} {key' : β → κ}
    {f : α → List β} {items : List α} (hnodup : (items.map key).Nodup)
    (hf : ∀ x ∈ items, ∀ y ∈ f x, key' y = key x) {x : α} (hx : x ∈ items) :
    (items.flatMap f).filter (fun y => key' y = key x) = f x := by
  induction items with
  | nil => cases hx
  | cons x' items ih =>
    obtain ⟨hnew, hnodup⟩ := List.nodup_cons.mp hnodup
    have hf' := fun y hy => hf y (List.mem_cons_of_mem _ hy)
    rw [List.flatMap_cons, List.filter_append]
    rcases List.mem_cons.mp hx with rfl | hx
    · have hrest : (items.flatMap f).filter (fun y => key' y = key x) = [] := by
        refine List.filter_eq_nil_iff.mpr fun y hy => ?_
        obtain ⟨z, hz, hy⟩ := List.mem_flatMap.mp hy
        rw [decide_eq_true_eq, hf' z hz y hy]
        exact fun heq => hnew (heq ▸ List.mem_map_of_mem hz)
      rw [hrest, List.append_nil]
      exact List.filter_eq_self.mpr fun y hy => by simpa using hf x List.mem_cons_self y hy
    · have hfirst : (f x').filter (fun y => key' y = key x) = [] := by
        refine List.filter_eq_nil_iff.mpr fun y hy => ?_
        rw [decide_eq_true_eq, hf x' List.mem_cons_self y hy]
        exact fun heq => hnew (heq ▸ List.mem_map_of_mem hx)
      rw [hfirst, List.nil_append, ih hnodup hf' hx]

theorem Fan.source_of_mem_links {r : Fan} {e : Graph.Edge} (h : e ∈ r.links) :
    e.source = r.node.id := by
  obtain ⟨out, -, rfl⟩ := List.mem_map.mp h
  cases out.1 <;> rfl

/-- The edges that leave a node are the ones of its fan. -/
theorem filter_source_links {fans : List Fan} (hnodup : (fans.map fun r => r.node.id).Nodup)
    {r : Fan} (hr : r ∈ fans) :
    (fans.flatMap Fan.links).filter (fun e => e.source = r.node.id) = r.links :=
  filter_flatMap_of_mem hnodup (fun _ _ _ he => Fan.source_of_mem_links he) hr

/-- The edges of fans have distinct identifiers. -/
theorem nodup_id_links {fans : List Fan} (hnodup : (fans.map fun r => r.node.id).Nodup)
    (hsound : ∀ r ∈ fans, r.IsSound) : ((fans.flatMap Fan.links).map Graph.Edge.id).Nodup := by
  have hexit {r : Fan} (hr : r ∈ fans) {out : Option String × String} (hout : out ∈ r.outs) :
      Graph.IsExit (r.node.id, out.1) :=
    ⟨(hsound r hr).plain, (hsound r hr).handles out hout⟩
  rw [List.Nodup, List.pairwise_map, List.pairwise_flatMap]
  constructor
  · -- handles tell the edges of one fan apart, and nodes those of two
    intro r hr
    refine List.pairwise_map.mpr ((List.pairwise_map.mp (hsound r hr).nodup).imp_of_mem ?_)
    intro out out' hout hout' hne heq
    exact hne (Prod.mk.inj (Graph.link_id_inj (hexit hr hout) (hexit hr hout') heq)).2
  · refine (List.pairwise_map.mp hnodup).imp_of_mem fun {r r'} hr hr' hne e he e' he' heq => ?_
    obtain ⟨out, hout, rfl⟩ := List.mem_map.mp he
    obtain ⟨out', hout', rfl⟩ := List.mem_map.mp he'
    exact hne (Prod.mk.inj (Graph.link_id_inj (hexit hr hout) (hexit hr' hout') heq)).1

end TrustFramework
