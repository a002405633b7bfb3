import Mathlib.Data.List.Flatten
import TrustFramework.Proofs.Graph.Names
import TrustFramework.Proofs.Graph.Nesting
import TrustFramework.Proofs.Graph.Pictures

/-!
# The shape of a drawn journey

If no sub-journey contains itself, the names of sub-journeys are plain and the nodes of the graph
of a journey have distinct identifiers, the graph consists of levels: one for the journey, and one
in every group that is not missing.  No edge leaves its level, and on each level the edges lead
from station to station, from the start to the end.

## Main definitions

* `Level.IsIn` — a graph has a level, with no other nodes in its group and no other edges from its
  nodes.
* `Level.IsOf` — a level is that of a journey.
* `Graph.HasLevels` — the graph of a journey consists of levels from start to end.
* `Atlas.NamesPlainly` — the names by which sub-journeys are called are plain.

## Main results

* `IsInside.isIn` — levels that are drawn are in the graph.
* `Atlas.drawJourney_shape` — **a journey is drawn as levels from start to end.**
-/

namespace TrustFramework

open Atlas (gateOf)
open Relation (ReflTransGen TransGen)

theorem Atlas.stepType_ne_group (atlas : Atlas) (s : OrchestrationStep) :
    atlas.stepType s ≠ .group := by
  unfold stepType
  split
  · nofun
  · nofun
  · split <;> nofun
  · nofun

/-! ### Levels in a graph -/

namespace Graph

/-- An edge leads from one node to another. -/
def Goes (g : Graph) (id other : String) : Prop :=
  ∃ e ∈ g.edges, e.source = id ∧ e.target = other

/-- Edges lead from one node to another, perhaps through others. -/
def Leads (g : Graph) : String → String → Prop := ReflTransGen g.Goes

end Graph

namespace Level

/-- A graph has a level: the nodes in its group are those of the level, and the edges that leave
them lead on as those of the level do. -/
structure IsIn (g : Graph) (l : Level) : Prop where
  nodes : (g.nodes.filter fun n => n.parent = l.parent).Perm l.nodes
  /-- From the start, one edge leads to the first station. -/
  start : g.edgesFrom l.start.id = [Graph.link l.start.id (entryFrom l.finish l.stations).id none]
  /-- From the node of a step, one edge leads to the next station. -/
  node : ∀ before x after, l.stations = before ++ x :: after →
    g.edgesFrom x.node.id = [Graph.link x.node.id (entryFrom l.finish after).id none]
  /-- From the node of preconditions, one edge leads into the step and one past it. -/
  condition : ∀ before x after, l.stations = before ++ x :: after →
    ∀ c into, x.condition = some (c, into) →
      (g.edgesFrom c.id).Perm [Graph.link c.id x.node.id (some (gateOf into)),
        Graph.link c.id (entryFrom l.finish after).id (some (gateOf !into))]
  finish : g.edgesFrom l.finish.id = []

/-- A level is that of a journey: its steps in the order of their numbers, as they are drawn. -/
structure IsOf (atlas : Atlas) (parent : Option String) (journey : Value) (l : Level) : Prop where
  parent_eq : l.parent = parent
  steps_eq : l.steps = OrchestrationStep.readAll journey
  ordered : l.steps.Pairwise fun a b => a.order ≤ b.order
  drawn : l.IsDrawn atlas

variable {atlas : Atlas} {l : Level}

theorem IsOf.of_called {parent : Option String} {journey : Value} (hl : l.IsDrawn atlas)
    (h : l.called = (parent, OrchestrationStep.readAll journey)) : l.IsOf atlas parent journey := by
  obtain ⟨hparent, hsteps⟩ := Prod.mk.inj h
  exact ⟨hparent, hsteps, hsteps ▸ OrchestrationStep.pairwise_readAll journey, hl⟩

/-- What the nodes of a level stand for. -/
theorem IsDrawn.node_cases (h : l.IsDrawn atlas) {n : Graph.Node} (hn : n ∈ l.nodes) :
    n.IsNamedAfter (startNode l.parent) ∨ n.IsNamedAfter (finishNode l.parent) ∨
      (∃ x ∈ l.stations, n = x.node ∧ n.IsNamedAfter (atlas.entryNode x.step l.parent)) ∨
      ∃ s first entry, n.IsNamedAfter (Atlas.preconditionNode s first entry l.parent) := by
  rcases List.mem_cons.mp hn with rfl | hn
  · exact Or.inl h.start
  rcases List.mem_append.mp hn with hn | hn
  · obtain ⟨x, hx, hn⟩ := List.mem_flatMap.mp hn
    rcases List.mem_cons.mp hn with rfl | hn
    · exact Or.inr (Or.inr (Or.inl ⟨x, hx, rfl, (h.stations x hx).node⟩))
    · obtain ⟨first, hnamed⟩ := (h.stations x hx).guarded.exists_named n hn
      exact Or.inr (Or.inr (Or.inr ⟨x.step, first, x.node.id, hnamed⟩))
  · obtain rfl := List.mem_singleton.mp hn
    exact Or.inr (Or.inl h.finish)

/-- The nodes of a level lie in its group. -/
theorem IsDrawn.parent_of_mem_nodes (h : l.IsDrawn atlas) {n : Graph.Node} (hn : n ∈ l.nodes) :
    n.parent = l.parent := by
  obtain hn | hn | ⟨x, -, -, hn⟩ | ⟨s, first, entry, hn⟩ := h.node_cases hn
  · exact hn.parent
  · exact hn.parent
  · rw [hn.parent, Atlas.entryNode]
    split <;> rfl
  · exact hn.parent

/-- The nodes of steps are among those of a level. -/
theorem map_node_stations_sublist (l : Level) : (l.stations.map Station.node).Sublist l.nodes := by
  rw [nodes, List.map_eq_flatMap]
  have hnodes : (l.stations.flatMap fun x => [x.node]).Sublist (l.stations.flatMap Station.nodes) :=
    List.Sublist.flatMap_right _ fun x _ => (List.nil_sublist _).cons_cons _
  exact (hnodes.trans (List.sublist_append_left _ _)).cons _

/-- A group that is not missing is the node of a station that calls the sub-journey of its label. -/
theorem IsDrawn.exists_call (h : l.IsDrawn atlas) {n : Graph.Node} (hn : n ∈ l.nodes)
    (htype : n.type = .group) (hmissing : Fields.get? n.data "missing" = none) :
    ∃ id subJourney, Fields.get? n.data "label" = some (.text id) ∧
      atlas.subJourneys.get? id = some subJourney ∧
      (some n.id, OrchestrationStep.readAll subJourney) ∈ l.calls atlas := by
  obtain hn | hn | ⟨x, hx, rfl, hn⟩ | ⟨s, first, entry, hn⟩ := h.node_cases hn
  · cases hn.type.symm.trans htype
  · cases hn.type.symm.trans htype
  · have hgiven := hn.type.symm.trans htype
    rw [hn.data] at hmissing ⊢
    unfold Atlas.entryNode at hgiven hmissing ⊢
    split at hgiven
    · next hkind =>
      rw [if_pos hkind] at hmissing ⊢
      cases hsub : atlas.subJourneys.get? (Atlas.subJourneyOf x.step) with
      | none =>
        rw [hsub] at hmissing
        cases hmissing
      | some subJourney =>
        refine ⟨Atlas.subJourneyOf x.step, subJourney, rfl, hsub,
          List.mem_filterMap.mpr ⟨x, hx, ?_⟩⟩
        rw [Station.call?, Atlas.calledBy?_eq_some_iff.mpr ⟨hkind, hsub⟩]
        rfl
    · -- no other step is a group
      exact absurd hgiven (atlas.stepType_ne_group x.step)
  · cases hn.type.symm.trans htype

end Level

/-- The graph of a journey consists of levels from start to end. -/
structure Graph.HasLevels (atlas : Atlas) (journey : Value) (g : Graph) : Prop where
  /-- Edges join nodes of one group. -/
  joins : ∀ e ∈ g.edges, ∃ a ∈ g.nodes, ∃ b ∈ g.nodes,
    a.id = e.source ∧ b.id = e.target ∧ a.parent = b.parent
  /-- There is a level for the journey. -/
  root : ∃ l : Level, l.IsOf atlas none journey ∧ l.IsIn g
  /-- There is a level in every group that is not missing, for the sub-journey of its label. -/
  group : ∀ n ∈ g.nodes, n.type = .group → Fields.get? n.data "missing" = none →
    ∃ id subJourney, Fields.get? n.data "label" = some (.text id) ∧
      atlas.subJourneys.get? id = some subJourney ∧
      ∃ l : Level, l.IsOf atlas (some n.id) subJourney ∧ l.IsIn g
  /-- Every node lies on a level, where it is reached from the start and reaches the end. -/
  leads : ∀ n ∈ g.nodes, ∃ (l : Level) (called : Value),
    l.IsOf atlas n.parent called ∧ l.IsIn g ∧ n ∈ l.nodes ∧
      g.Leads l.start.id n.id ∧ g.Leads n.id l.finish.id

/-! ### Levels that are drawn -/

namespace IsInside

variable {atlas : Atlas} {calls : List (Option String × List OrchestrationStep)}
  {levels : List Level} {ns : List Graph.Node} {ls : List Graph.Edge}

/-- The edges of levels are those of their fans. -/
theorem links_perm (h : IsInside atlas calls levels ns ls) :
    ls.Perm ((levels.flatMap Level.fans).flatMap Fan.links) := by
  rw [List.flatMap_assoc]
  exact h.links.trans (List.Perm.flatMap_left _ fun l _ => l.links_perm)

theorem nodup_fans (h : IsInside atlas calls levels ns ls)
    (hdistinct : (ns.map Graph.Node.id).Nodup) :
    ((levels.flatMap Level.fans).map fun r => r.node.id).Nodup := by
  have hnodes : (levels.flatMap Level.fans).map Fan.node = levels.flatMap Level.nodes := by
    simp [List.map_flatMap]
  have hids : (levels.flatMap Level.fans).map (fun r => r.node.id) =
      (levels.flatMap Level.nodes).map Graph.Node.id := by
    rw [← hnodes, List.map_map]
    rfl
  rw [hids]
  exact (h.nodes.map Graph.Node.id).nodup_iff.mp hdistinct

/-- The nodes of levels being distinct and of plain names, so are their edges. -/
theorem nodup_links (h : IsInside atlas calls levels ns ls)
    (hdistinct : (ns.map Graph.Node.id).Nodup) (hplain : ∀ n ∈ ns, IsPlain n.id) :
    (ls.map Graph.Edge.id).Nodup := by
  refine (h.links_perm.map Graph.Edge.id).nodup_iff.mpr
    (nodup_id_links (h.nodup_fans hdistinct) fun r hr => ?_)
  obtain ⟨l, hl, hr⟩ := List.mem_flatMap.mp hr
  exact Level.isSound_of_mem_fans
    (fun n hn => hplain n (h.nodes.mem_iff.mpr (List.mem_flatMap.mpr ⟨l, hl, hn⟩))) hr

/-- No two levels lie in one group. -/
theorem nodup_parents {steps : List OrchestrationStep}
    (h : IsInside atlas [(none, steps)] levels ns ls) (hdistinct : (ns.map Graph.Node.id).Nodup) :
    (levels.map Level.parent).Nodup := by
  have hstations : ((levels.flatMap Level.stations).map fun x => x.node.id).Nodup := by
    have hsub : ((levels.flatMap Level.stations).map Station.node).Sublist
        (levels.flatMap Level.nodes) := by
      rw [List.map_flatMap]
      exact List.Sublist.flatMap_right _ fun l _ => l.map_node_stations_sublist
    have hids := hsub.map Graph.Node.id
    rw [List.map_map] at hids
    exact ((h.nodes.map Graph.Node.id).nodup_iff.mp hdistinct).sublist hids
  -- a call lies in the group of its station
  have hgroup {x : Station} {p : Option String} (hp : (x.call? atlas).map Prod.fst = some p) :
      p = some x.node.id := by
    simp only [Station.call?, Option.map_map, Option.map_eq_some_iff] at hp
    obtain ⟨_, -, rfl⟩ := hp
    rfl
  have hcalls : levels.flatMap (Level.calls atlas) =
      (levels.flatMap Level.stations).filterMap (Station.call? atlas) := List.filterMap_flatMap.symm
  have hparents := h.calls.map Prod.fst
  rw [List.map_map, hcalls, List.singleton_append, List.map_cons, List.map_filterMap] at hparents
  refine hparents.nodup_iff.mpr (List.nodup_cons.mpr ⟨fun hnone => ?_, ?_⟩)
  · obtain ⟨x, -, hx⟩ := List.mem_filterMap.mp hnone
    cases hgroup hx
  · refine List.pairwise_filterMap.mpr ((List.pairwise_map.mp hstations).imp ?_)
    rintro x y hne p hp q hq rfl
    exact hne (Option.some.inj ((hgroup hp).symm.trans (hgroup hq)))

/-- **Levels that are drawn are in the graph.** -/
theorem isIn {g : Graph} {steps : List OrchestrationStep}
    (h : IsInside atlas [(none, steps)] levels g.nodes g.edges) (hdistinct : g.ids.Nodup)
    {l : Level} (hl : l ∈ levels) : l.IsIn g := by
  -- nodes having distinct identifiers, no other edges leave a node than those of its fan
  have hfan {r : Fan} (hr : r ∈ l.fans) : (g.edgesFrom r.node.id).Perm r.links := by
    rw [← filter_source_links (h.nodup_fans hdistinct) (List.mem_flatMap.mpr ⟨l, hl, hr⟩)]
    exact h.links_perm.filter _
  have hstation {before after : List Station} {x : Station}
      (hx : l.stations = before ++ x :: after) {r : Fan}
      (hr : r ∈ x.fans (entryFrom l.finish after).id) : (g.edgesFrom r.node.id).Perm r.links :=
    hfan (List.mem_cons_of_mem _ (hx ▸ mem_fansFrom hr))
  constructor
  case nodes =>
    have hgroup : (levels.flatMap Level.nodes).filter (fun n => n.parent = l.parent) = l.nodes :=
      filter_flatMap_of_mem (h.nodup_parents hdistinct)
        (fun l hl n hn => (h.drawn l hl).parent_of_mem_nodes hn) hl
    rw [← hgroup]
    exact h.nodes.filter _
  case start => exact List.perm_singleton.mp (hfan List.mem_cons_self)
  case node =>
    intro before x after hx
    exact List.perm_singleton.mp (hstation hx List.mem_cons_self)
  case condition =>
    intro before x after hx c into hcondition
    refine hstation (r := ⟨c, [(some (gateOf into), x.node.id),
      (some (gateOf !into), (entryFrom l.finish after).id)]⟩) hx ?_
    simp [Station.fans, hcondition]
  case finish =>
    exact List.perm_nil.mp (hfan (List.mem_cons_of_mem _ (finish_mem_fansFrom l.finish l.stations)))

/-- Edges join nodes of one group. -/
theorem joins (h : IsInside atlas calls levels ns ls) {e : Graph.Edge} (he : e ∈ ls) :
    ∃ a ∈ ns, ∃ b ∈ ns, a.id = e.source ∧ b.id = e.target ∧ a.parent = b.parent := by
  obtain ⟨r, hr, he⟩ := List.mem_flatMap.mp (h.links_perm.mem_iff.mp he)
  obtain ⟨l, hl, hr⟩ := List.mem_flatMap.mp hr
  have hnodes {n : Graph.Node} (hn : n ∈ l.nodes) : n ∈ ns :=
    h.nodes.mem_iff.mpr (List.mem_flatMap.mpr ⟨l, hl, hn⟩)
  have hparent {n : Graph.Node} (hn : n ∈ l.nodes) : n.parent = l.parent :=
    (h.drawn l hl).parent_of_mem_nodes hn
  have hsource : r.node ∈ l.nodes := l.map_node_fans ▸ List.mem_map_of_mem hr
  obtain ⟨out, hout, rfl⟩ := List.mem_map.mp he
  obtain ⟨n, hn, htarget⟩ := Level.exists_target hr hout
  exact ⟨r.node, hnodes hsource, n, hnodes hn, by cases out.1 <;> rfl,
    htarget.trans (by cases out.1 <;> rfl), (hparent hsource).trans (hparent hn).symm⟩

/-- The edges of levels lead from their starts to their ends. -/
theorem leads {g : Graph} (h : IsInside atlas calls levels ns g.edges) {l : Level}
    (hl : l ∈ levels) {n : Graph.Node} (hn : n ∈ l.nodes) :
    g.Leads l.start.id n.id ∧ g.Leads n.id l.finish.id := by
  refine Level.leads (fun r hr out hout => ⟨Graph.link r.node.id out.2 out.1, ?_, ?_⟩) hn
  · refine h.links_perm.mem_iff.mpr (List.mem_flatMap.mpr ⟨r, ?_, List.mem_map_of_mem hout⟩)
    exact List.mem_flatMap.mpr ⟨l, hl, hr⟩
  · cases out.1 <;> exact ⟨rfl, rfl⟩

/-- A call has its level. -/
theorem exists_isOf (h : IsInside atlas calls levels ns ls) {parent : Option String}
    {journey : Value} (hcall : (parent, OrchestrationStep.readAll journey) ∈
      calls ++ levels.flatMap (Level.calls atlas)) :
    ∃ l ∈ levels, l.IsOf atlas parent journey := by
  obtain ⟨l, hl, hcalled⟩ := List.mem_map.mp (h.calls.mem_iff.mpr hcall)
  exact ⟨l, hl, Level.IsOf.of_called (h.drawn l hl) hcalled⟩

/-- A level has its call. -/
theorem isOf_of_mem {journey : Value}
    (h : IsInside atlas [(none, OrchestrationStep.readAll journey)] levels ns ls) {l : Level}
    (hl : l ∈ levels) : ∃ called, l.IsOf atlas l.parent called := by
  have hcalled : ∃ parent called, l.called = (parent, OrchestrationStep.readAll called) := by
    rcases List.mem_cons.mp (h.calls.mem_iff.mp (List.mem_map_of_mem hl)) with hroot | hinner
    · exact ⟨none, journey, hroot⟩
    · obtain ⟨outer, -, hcall⟩ := List.mem_flatMap.mp hinner
      obtain ⟨x, -, hx⟩ := List.mem_filterMap.mp hcall
      obtain ⟨subJourney, -, hsub⟩ := Option.map_eq_some_iff.mp hx
      exact ⟨some x.node.id, subJourney, hsub.symm⟩
  obtain ⟨parent, called, hcalled⟩ := hcalled
  have hof := Level.IsOf.of_called (h.drawn l hl) hcalled
  exact ⟨called, hof.parent_eq ▸ hof⟩

end IsInside

/-! ### The graph of a journey -/

namespace Atlas

/-- The names by which the steps of a journey, and those of all sub-journeys, call sub-journeys are
plain.  They count also where the policy lacks what they name: a group is drawn for it. -/
def NamesPlainly (atlas : Atlas) (journey : Value) : Prop :=
  CallsPlainly (OrchestrationStep.readAll journey) ∧
    ∀ id subJourney, atlas.subJourneys.get? id = some subJourney →
      CallsPlainly (OrchestrationStep.readAll subJourney)

variable {atlas : Atlas} {journey : Value}

/-- The graph of a journey has the nodes and edges of the levels of its steps and of all that they
call. -/
theorem exists_isInside_drawJourney (hacyclic : atlas.IsAcyclic)
    (hplain : atlas.NamesPlainly journey)
    (hdistinct : (atlas.drawJourney journey).graph.ids.Nodup) :
    ∃ levels, IsInside atlas [(none, OrchestrationStep.readAll journey)] levels
      (atlas.drawJourney journey).graph.nodes (atlas.drawJourney journey).graph.edges := by
  obtain ⟨levels, ns, ls, hadds, hinside, hns⟩ := exists_levels hplain.2 atlas.depthBound none
    (OrchestrationStep.readAll journey) {} (by simp) hplain.1 (ends_of_isAcyclic hacyclic journey)
  have hnodes : (atlas.drawJourney journey).graph.nodes = ns := hadds.nodes
  have hedges : (atlas.drawJourney journey).graph.edges = ls := by
    -- no edge is left out, for none has an identifier that is there
    rw [Graph.ids, hnodes] at hdistinct
    exact hadds.edges.trans (Graph.foldl_withEdge (hinside.nodup_links hdistinct hns))
  rw [hnodes, hedges]
  exact ⟨levels, hinside⟩

/-- **A journey is drawn as levels from start to end**, if no sub-journey contains itself, names
are plain and nodes have distinct identifiers. -/
theorem drawJourney_shape (hacyclic : atlas.IsAcyclic) (hplain : atlas.NamesPlainly journey)
    (hdistinct : (atlas.drawJourney journey).graph.ids.Nodup) :
    (atlas.drawJourney journey).graph.HasLevels atlas journey := by
  obtain ⟨levels, hinside⟩ := exists_isInside_drawJourney hacyclic hplain hdistinct
  have hlevel {n : Graph.Node} (hn : n ∈ (atlas.drawJourney journey).graph.nodes) :
      ∃ l ∈ levels, n ∈ l.nodes := List.mem_flatMap.mp (hinside.nodes.mem_iff.mp hn)
  constructor
  case joins => exact fun e he => hinside.joins he
  case root =>
    obtain ⟨l, hl, hof⟩ := hinside.exists_isOf (List.mem_append_left _ (List.mem_singleton_self _))
    exact ⟨l, hof, hinside.isIn hdistinct hl⟩
  case group =>
    intro n hn htype hmissing
    obtain ⟨outer, houter, hn⟩ := hlevel hn
    obtain ⟨id, subJourney, hlabel, hsub, hcall⟩ :=
      (hinside.drawn outer houter).exists_call hn htype hmissing
    obtain ⟨l, hl, hof⟩ := hinside.exists_isOf
      (List.mem_append_right _ (List.mem_flatMap.mpr ⟨outer, houter, hcall⟩))
    exact ⟨id, subJourney, hlabel, hsub, l, hof, hinside.isIn hdistinct hl⟩
  case leads =>
    intro n hn
    obtain ⟨l, hl, hn⟩ := hlevel hn
    obtain ⟨called, hof⟩ := hinside.isOf_of_mem hl
    rw [← (hinside.drawn l hl).parent_of_mem_nodes hn] at hof
    exact ⟨l, called, hof, hinside.isIn hdistinct hl, hn, hinside.leads hl hn⟩

/-! ### A journey with a level inside -/

/-- What a step has that is passed over unless a claim has a value. -/
def guarded : Fields Value :=
  [("Preconditions", .object [("Precondition", .object
    [("@_Type", .text "ClaimsExist"), ("@_ExecuteActionsIf", .text "true"),
      ("Value", .text "objectId"), ("Action", .text "SkipThisOrchestrationStep")])])]

/-- A sub-journey of one step with preconditions. -/
def innerJourney : Value :=
  Graph.journeyElement "S" [Graph.stepElement "1" "ClaimsExchange" guarded]

/-- A policy with this sub-journey. -/
def nested : Atlas where
  root := .object [("SubJourneys", .object [("SubJourney", .list [innerJourney])])]

/-- A journey that calls the sub-journey under preconditions, with a step behind. -/
def outerJourney : Value :=
  Graph.journeyElement "J" [Graph.stepElement "1" "InvokeSubJourney" (Graph.calling "S" ++ guarded),
    Graph.stepElement "2" "SendClaims" guarded]

theorem innerJourney_calls_nothing :
    ∀ s ∈ OrchestrationStep.readAll innerJourney, s.kind ≠ "InvokeSubJourney" := by
  rw [OrchestrationStep.readAll_of_ordered (by decide)]
  decide

theorem eq_innerJourney {id : String} {subJourney : Value}
    (h : nested.subJourneys.get? id = some subJourney) : subJourney = innerJourney := by
  change (if "S" = id then some innerJourney else none) = some subJourney at h
  split at h
  · exact (Option.some.inj h).symm
  · cases h

/-- The sub-journey and the step behind it are drawn on two levels. -/
theorem nested_drawJourney_shape :
    nested.IsAcyclic ∧ nested.NamesPlainly outerJourney ∧
      (nested.drawJourney outerJourney).graph.ids.Nodup ∧
      (nested.drawJourney outerJourney).graph.HasLevels nested outerJourney := by
  have hacyclic : nested.IsAcyclic := by
    intro id hid
    obtain ⟨other, ⟨subJourney, hsub, s, hs, hkind, -⟩, -⟩ := TransGen.head'_iff.mp hid
    rw [eq_innerJourney hsub] at hs
    exact innerJourney_calls_nothing s hs hkind
  have hplain : nested.NamesPlainly outerJourney := by
    constructor
    · have hnames : ∀ s ∈ OrchestrationStep.readAll outerJourney,
          s.kind = "InvokeSubJourney" → subJourneyOf s = "S" := by
        rw [OrchestrationStep.readAll_of_ordered (by decide)]
        decide
      intro s hs hkind
      rw [hnames s hs hkind]
      exact IsOrdinary.isPlain ⟨by simp, by simp⟩
    · intro id subJourney hsub s hs hkind
      rw [eq_innerJourney hsub] at hs
      exact absurd hkind (innerJourney_calls_nothing s hs)
  have hids : (nested.drawJourney outerJourney).graph.ids =
      ["root-start", "S", "S-start", "S-Step1", "S-Step1-Precondition", "S-end", "S-Precondition",
        "Step2", "Step2-Precondition", "root-end"] := by
    rw [drawJourney, OrchestrationStep.readAll_of_ordered (by decide)]
    decide +kernel
  have hdistinct : (nested.drawJourney outerJourney).graph.ids.Nodup := by
    rw [hids]
    decide
  exact ⟨hacyclic, hplain, hdistinct, drawJourney_shape hacyclic hplain hdistinct⟩

-- names that are not plain run together: from the third group on to the fourth would be the edge
-- from the first to the second
example : ((Atlas.mk .null []).drawJourney (Graph.journeyElement "J"
    [Graph.stepElement "1" "InvokeSubJourney" (Graph.calling "A"),
      Graph.stepElement "2" "InvokeSubJourney" (Graph.calling "B->C"),
      Graph.stepElement "3" "InvokeSubJourney" (Graph.calling "A->B"),
      Graph.stepElement "4" "InvokeSubJourney" (Graph.calling "C")])).graph.edgesFrom "A->B" =
      [] := by
  rw [drawJourney, OrchestrationStep.readAll_of_ordered (by decide)]
  rfl

end Atlas

end TrustFramework
