import TrustFramework.Proofs.Graph.Levels

/-!
# What is drawn of a journey

The steps of a journey are drawn on a level, and those of every sub-journey that they call on a
level inside.  Drawing adds all nodes of these levels to a graph, and each of their edges unless
one of its identifier is there.  As long as the names of sub-journeys are plain, so are those of
all nodes.

## Main definitions

* `Graph.Node.IsNamedAfter` — a node but for a number behind its identifier.
* `Drawing.Adds` — a drawing with more nodes and edges.
* `Station.IsDrawn`, `Level.IsDrawn` — stations and levels as they are drawn.
* `IsInside` — levels that are drawn for some calls, and for all calls on these levels.

## Main results

* `Atlas.exists_levels` — **drawing steps adds the levels of the steps and of all they call.**
-/

namespace TrustFramework

/-! ### Nodes and edges added to a graph -/

namespace Graph

/-- A node as a graph takes it: as it was given, or with a number behind its identifier. -/
def Node.IsNamedAfter (n given : Node) : Prop :=
  n = given ∨ ∃ k : Nat, n = { given with id := given.id ++ "-" ++ toString k }

theorem isNamedAfter_admitted (g : Graph) (n : Node) : (g.admitted n).IsNamedAfter n := by
  unfold admitted
  split
  · exact Or.inr ⟨_, rfl⟩
  · exact Or.inl rfl

namespace Node

variable {n given : Node}

theorem IsNamedAfter.type (h : n.IsNamedAfter given) : n.type = given.type := by
  obtain rfl | ⟨_, rfl⟩ := h <;> rfl

theorem IsNamedAfter.data (h : n.IsNamedAfter given) : n.data = given.data := by
  obtain rfl | ⟨_, rfl⟩ := h <;> rfl

theorem IsNamedAfter.parent (h : n.IsNamedAfter given) : n.parent = given.parent := by
  obtain rfl | ⟨_, rfl⟩ := h <;> rfl

theorem IsNamedAfter.isPlain (h : n.IsNamedAfter given) (hplain : IsPlain given.id) :
    IsPlain n.id := by
  obtain rfl | ⟨k, rfl⟩ := h
  · exact hplain
  · exact (IsPlain.append hplain ⟨by simp, by simp⟩).append (isOrdinary_toString k)

end Node

/-- Edges with one more, unless there is one of its identifier. -/
def withEdge (es : List Edge) (e : Edge) : List Edge :=
  match es.find? fun f => f.id = e.id with
  | some _ => es
  | none => es ++ [e]

theorem addEdge_fst (g : Graph) (e : Edge) :
    (g.addEdge e).1 = { g with edges := withEdge g.edges e } := by
  unfold addEdge withEdge
  cases g.edges.find? fun f => f.id = e.id <;> rfl

/-- Edges of distinct identifiers are all added. -/
theorem foldl_withEdge {es ls : List Edge} (h : ((es ++ ls).map Edge.id).Nodup) :
    ls.foldl withEdge es = es ++ ls := by
  induction ls generalizing es with
  | nil => simp
  | cons e ls ih =>
    have hnone : es.find? (fun f => f.id = e.id) = none := by
      rw [List.map_append, List.nodup_append] at h
      refine List.find?_eq_none.mpr fun f hf => ?_
      simpa using h.2.2 f.id (List.mem_map_of_mem hf) e.id (by simp)
    have hnew : withEdge es e = es ++ [e] := by rw [withEdge, hnone]
    rw [List.foldl_cons, hnew, ih (by simpa using h), List.append_assoc]
    rfl

end Graph

namespace Drawing

/-- A drawing with more nodes, and with edges where there were none of their identifiers. -/
structure Adds (d d' : Drawing) (ns : List Graph.Node) (ls : List Graph.Edge) : Prop where
  nodes : d'.graph.nodes = d.graph.nodes ++ ns
  edges : d'.graph.edges = ls.foldl Graph.withEdge d.graph.edges

variable {d d' d'' : Drawing} {ns ns' : List Graph.Node} {ls ls' : List Graph.Edge}

theorem Adds.refl (d : Drawing) : d.Adds d [] [] := ⟨by simp, rfl⟩

theorem Adds.trans (h : d.Adds d' ns ls) (h' : d'.Adds d'' ns' ls') :
    d.Adds d'' (ns ++ ns') (ls ++ ls') where
  nodes := by rw [h'.nodes, h.nodes, List.append_assoc]
  edges := by rw [h'.edges, h.edges, List.foldl_append]

theorem adds_addNode (d : Drawing) (n : Graph.Node) : d.Adds (d.addNode n).1 [(d.addNode n).2] [] :=
  ⟨rfl, rfl⟩

theorem adds_warn (d : Drawing) (warning : String) : d.Adds (d.warn warning) [] [] :=
  ⟨by simp [warn], rfl⟩

theorem isNamedAfter_addNode (d : Drawing) (n : Graph.Node) : (d.addNode n).2.IsNamedAfter n :=
  Graph.isNamedAfter_admitted d.graph n

theorem adds_connect (d : Drawing) (source target : String) (handle : Option String) :
    d.Adds (d.connect source target handle) [] [Graph.link source target handle] where
  nodes := by simp [connect, Graph.connect, Graph.addEdge_fst]
  edges := by simp [connect, Graph.connect, Graph.addEdge_fst]

theorem adds_connectExits (d : Drawing) (exits : Exits) (target : String) :
    d.Adds (d.connectExits exits target) [] (linkAll exits target) := by
  induction exits generalizing d with
  | nil => exact Adds.refl d
  | cons exit exits ih => exact (d.adds_connect exit.1 target exit.2).trans (ih _)

end Drawing

/-! ### Stations and levels as they are drawn -/

namespace Atlas

/-- The node of a step as it is given to a graph. -/
def entryNode (atlas : Atlas) (s : OrchestrationStep) (parent : Option String) : Graph.Node :=
  if s.kind = "InvokeSubJourney" then
    groupNode s (subJourneyOf s) (atlas.subJourneys.get? (subJourneyOf s)) parent
  else atlas.stepNode s parent

/-- Whether the names of the sub-journeys that steps call are plain. -/
def CallsPlainly (steps : List OrchestrationStep) : Prop :=
  ∀ s ∈ steps, s.kind = "InvokeSubJourney" → IsPlain (subJourneyOf s)

end Atlas

namespace Station

/-- A station has a node for its preconditions if it has any, and the first of them tells by which
branch it is entered. -/
def IsGuarded (parent : Option String) (x : Station) : Prop :=
  match x.step.preconditions with
  | [] => x.condition = none
  | first :: _ => ∃ c : Graph.Node,
      c.IsNamedAfter (Atlas.preconditionNode x.step first x.node.id parent) ∧
        x.condition = some (c, first.executeActionsIf)

theorem IsGuarded.exists_named {parent : Option String} {x : Station} (h : x.IsGuarded parent) :
    ∀ c ∈ (x.condition.map Prod.fst).toList, ∃ first,
      c.IsNamedAfter (Atlas.preconditionNode x.step first x.node.id parent) := by
  unfold IsGuarded at h
  split at h
  · simp [h]
  · next first _ _ =>
    obtain ⟨c, hnamed, hcondition⟩ := h
    rw [hcondition]
    exact List.forall_mem_singleton.mpr ⟨first, hnamed⟩

/-- A station as it is drawn. -/
structure IsDrawn (atlas : Atlas) (parent : Option String) (x : Station) : Prop where
  node : x.node.IsNamedAfter (atlas.entryNode x.step parent)
  guarded : x.IsGuarded parent

/-- The call of a station, if it calls a sub-journey that the policy has: the group in which it is
drawn, and its steps. -/
def call? (atlas : Atlas) (x : Station) : Option (Option String × List OrchestrationStep) :=
  (atlas.calledBy? x.step).map fun subJourney =>
    (some x.node.id, OrchestrationStep.readAll subJourney)

end Station

namespace Level

/-- A level as it is drawn. -/
structure IsDrawn (atlas : Atlas) (l : Level) : Prop where
  start : l.start.IsNamedAfter (startNode l.parent)
  finish : l.finish.IsNamedAfter (finishNode l.parent)
  stations : ∀ x ∈ l.stations, x.IsDrawn atlas l.parent

/-- The call for which a level is drawn. -/
def called (l : Level) : Option String × List OrchestrationStep := (l.parent, l.steps)

/-- The calls on a level. -/
def calls (atlas : Atlas) (l : Level) : List (Option String × List OrchestrationStep) :=
  l.stations.filterMap (Station.call? atlas)

end Level

/-- Levels that are drawn for some calls, and for all calls on these levels. -/
structure IsInside (atlas : Atlas) (calls : List (Option String × List OrchestrationStep))
    (levels : List Level) (ns : List Graph.Node) (ls : List Graph.Edge) : Prop where
  drawn : ∀ l ∈ levels, l.IsDrawn atlas
  nodes : ns.Perm (levels.flatMap Level.nodes)
  links : ls.Perm (levels.flatMap Level.links)
  calls : (levels.map Level.called).Perm (calls ++ levels.flatMap (Level.calls atlas))

namespace IsInside

variable {atlas : Atlas} {calls calls' : List (Option String × List OrchestrationStep)}
  {levels levels' : List Level} {ns ns' : List Graph.Node} {ls ls' : List Graph.Edge}

theorem nil (atlas : Atlas) : IsInside atlas [] [] [] [] :=
  ⟨by simp, List.Perm.refl _, List.Perm.refl _, List.Perm.refl _⟩

theorem append (h : IsInside atlas calls levels ns ls)
    (h' : IsInside atlas calls' levels' ns' ls') :
    IsInside atlas (calls ++ calls') (levels ++ levels') (ns ++ ns') (ls ++ ls') where
  drawn := fun l hl => (List.mem_append.mp hl).elim (h.drawn l) (h'.drawn l)
  nodes := by
    rw [List.flatMap_append]
    exact h.nodes.append h'.nodes
  links := by
    rw [List.flatMap_append]
    exact h.links.append h'.links
  calls := by
    rw [List.map_append, List.flatMap_append]
    refine (h.calls.append h'.calls).trans ?_
    rw [List.append_assoc, List.append_assoc]
    refine List.Perm.append_left _ ?_
    rw [← List.append_assoc, ← List.append_assoc]
    exact List.perm_append_comm.append_right _

/-- A level around those that are drawn for the calls on it. -/
theorem cons {l : Level} (hl : l.IsDrawn atlas) (h : IsInside atlas (l.calls atlas) levels ns ls) :
    IsInside atlas [l.called] (l :: levels) (l.nodes ++ ns) (l.links ++ ls) where
  drawn := List.forall_mem_cons.mpr ⟨hl, h.drawn⟩
  nodes := h.nodes.append_left _
  links := h.links.append_left _
  calls := h.calls.cons _

theorem perm (h : IsInside atlas calls levels ns ls) (hns : ns'.Perm ns) (hls : ls'.Perm ls) :
    IsInside atlas calls levels ns' ls' :=
  ⟨h.drawn, hns.trans h.nodes, hls.trans h.links, h.calls⟩

end IsInside

/-! ### Drawing -/

namespace Atlas

variable (atlas : Atlas)

theorem isPlain_getD_root {parent : Option String} (hparent : ∀ p ∈ parent, IsPlain p) :
    IsPlain (parent.getD "root") := by
  cases parent with
  | none => exact IsOrdinary.isPlain ⟨by simp, by simp⟩
  | some p => exact hparent p rfl

theorem isPlain_entryNode {s : OrchestrationStep} {parent : Option String}
    (hparent : ∀ p ∈ parent, IsPlain p)
    (hcall : s.kind = "InvokeSubJourney" → IsPlain (subJourneyOf s)) :
    IsPlain (atlas.entryNode s parent).id := by
  unfold entryNode
  split
  · next hkind => exact hcall hkind
  · have hstep : IsOrdinary ("Step" ++ toString s.order) :=
      IsOrdinary.append ⟨by simp, by simp⟩ (isOrdinary_toString_int s.order)
    have hid : (atlas.stepNode s parent).id =
        (parent.map fun p => p ++ "-").getD "" ++ ("Step" ++ toString s.order) := by
      rw [stepNode, String.append_assoc]
    rw [hid]
    cases parent with
    | none => exact IsPlain.append (IsOrdinary.isPlain ⟨by simp, by simp⟩) hstep
    | some p => exact ((hparent p rfl).append ⟨by simp, by simp⟩).append hstep

/-- Preconditions are drawn before the node of their step. -/
theorem exists_drawPreconditions (d : Drawing) (s : OrchestrationStep) (n : Graph.Node)
    (parent : Option String) (exits : Exits) :
    ∃ x : Station, x.step = s ∧ x.node = n ∧ x.IsGuarded parent ∧
      d.Adds (drawPreconditions d s n.id parent exits).1 (x.condition.map Prod.fst).toList
        (linkAll exits x.entry.id ++ x.inward) ∧
      (n.id, none) :: (drawPreconditions d s n.id parent exits).2 = x.exits := by
  unfold drawPreconditions
  cases hpreconditions : s.preconditions with
  | nil =>
    refine ⟨⟨s, n, none⟩, rfl, rfl, ?_, ?_, rfl⟩
    · simp [Station.IsGuarded, hpreconditions]
    · simpa [Station.inward, Station.entry] using d.adds_connectExits exits n.id
  | cons first more =>
    let c := (d.addNode (preconditionNode s first n.id parent)).2
    refine ⟨⟨s, n, some (c, first.executeActionsIf)⟩, rfl, rfl, ?_, ?_, rfl⟩
    · have hnamed : c.IsNamedAfter (preconditionNode s first n.id parent) :=
        d.isNamedAfter_addNode _
      simp only [Station.IsGuarded, hpreconditions]
      exact ⟨c, hnamed, rfl⟩
    · exact (d.adds_addNode _).trans ((Drawing.adds_connectExits _ exits c.id).trans
        (Drawing.adds_connect _ c.id n.id _))

/-- Drawing steps adds the level of the steps and the levels inside, if the sub-journeys that they
call come to an end within a bound. -/
def DrawsLevels (bound : Nat) : Prop :=
  ∀ (parent : Option String) (steps : List OrchestrationStep) (d : Drawing),
    (∀ p ∈ parent, IsPlain p) → CallsPlainly steps → atlas.endsWithin bound steps = true →
    ∃ levels ns ls, d.Adds (atlas.drawSteps bound parent steps d) ns ls ∧
      IsInside atlas [(parent, steps)] levels ns ls ∧ ∀ n ∈ ns, IsPlain n.id

theorem adds_addGroup (parent : Option String) (d : Drawing) (s : OrchestrationStep) :
    d.Adds (atlas.addGroup parent d s).1 [(atlas.addGroup parent d s).2] [] := by
  have hwarned : d.Adds (warnUnnamed d s) [] [] := by
    unfold warnUnnamed
    split
    · exact d.adds_warn _
    · exact Drawing.Adds.refl d
  exact hwarned.trans (Drawing.adds_addNode _ _)

variable {atlas} {bound : Nat} {parent : Option String}

/-- The node of a step is added, and all levels inside if it is a group. -/
theorem exists_drawEntry (hlevels : atlas.DrawsLevels bound) (hparent : ∀ p ∈ parent, IsPlain p)
    {s : OrchestrationStep} (hcall : s.kind = "InvokeSubJourney" → IsPlain (subJourneyOf s))
    (hcalled : ∀ subJourney, atlas.calledBy? s = some subJourney →
      CallsPlainly (OrchestrationStep.readAll subJourney) ∧
        atlas.endsWithin bound (OrchestrationStep.readAll subJourney) = true) (d : Drawing) :
    ∃ n levels ns ls, d.Adds (atlas.drawEntry bound parent d s).1 (n :: ns) ls ∧
      (atlas.drawEntry bound parent d s).2 = n.id ∧
      n.IsNamedAfter (atlas.entryNode s parent) ∧
      IsInside atlas ((atlas.calledBy? s).map fun subJourney =>
        (some n.id, OrchestrationStep.readAll subJourney)).toList levels ns ls ∧
      ∀ m ∈ n :: ns, IsPlain m.id := by
  have hplain := atlas.isPlain_entryNode hparent hcall
  unfold drawEntry
  by_cases hkind : s.kind = "InvokeSubJourney"
  · -- a group stays empty if the policy lacks the sub-journey
    have hgroup := adds_addGroup atlas parent d s
    have hnamed : (atlas.addGroup parent d s).2.IsNamedAfter (atlas.entryNode s parent) := by
      rw [entryNode, if_pos hkind]
      exact Drawing.isNamedAfter_addNode _ _
    have hname : IsPlain (atlas.addGroup parent d s).2.id := hnamed.isPlain hplain
    have hcalledBy : atlas.calledBy? s = atlas.subJourneys.get? (subJourneyOf s) := if_pos hkind
    rw [if_pos hkind, hcalledBy]
    rw [hcalledBy] at hcalled
    cases hsub : atlas.subJourneys.get? (subJourneyOf s) with
    | none =>
      exact ⟨_, [], [], [], hgroup.trans (Drawing.adds_warn _ _), rfl, hnamed,
        IsInside.nil atlas, List.forall_mem_singleton.mpr hname⟩
    | some subJourney =>
      obtain ⟨hplainly, hends⟩ := hcalled subJourney hsub
      obtain ⟨levels, ns, ls, hadds, hinside, hns⟩ := hlevels
        (some (atlas.addGroup parent d s).2.id)
        (OrchestrationStep.readAll subJourney) (atlas.addGroup parent d s).1
        (by rintro p ⟨⟩; exact hname) hplainly hends
      exact ⟨_, levels, ns, ls, hgroup.trans hadds, rfl, hnamed, hinside,
        List.forall_mem_cons.mpr ⟨hname, hns⟩⟩
  · have hcalledBy : atlas.calledBy? s = none := if_neg hkind
    have hnamed : (d.addNode (atlas.stepNode s parent)).2.IsNamedAfter
        (atlas.entryNode s parent) := by
      rw [entryNode, if_neg hkind]
      exact Drawing.isNamedAfter_addNode _ _
    rw [if_neg hkind, hcalledBy]
    exact ⟨_, [], [], [], d.adds_addNode _, rfl, hnamed, IsInside.nil atlas,
      List.forall_mem_singleton.mpr (hnamed.isPlain hplain)⟩

end Atlas

/-! ### The way of the steps -/

/-- Stations on the way to an end, and the levels inside them. -/
structure Way where
  stations : List Station
  finish : Graph.Node
  levels : List Level

/-- A way as it is drawn for steps from some exits on. -/
structure Way.IsDrawn (atlas : Atlas) (parent : Option String) (exits : Exits)
    (steps : List OrchestrationStep) (w : Way) (ns : List Graph.Node) (ls : List Graph.Edge) :
    Prop where
  steps_eq : w.stations.map Station.step = steps
  stations : ∀ x ∈ w.stations, x.IsDrawn atlas parent
  finish : w.finish.IsNamedAfter (finishNode parent)
  inside : ∃ inner links,
    IsInside atlas (w.stations.filterMap (Station.call? atlas)) w.levels inner links ∧
      ns.Perm (w.stations.flatMap Station.nodes ++ [w.finish] ++ inner) ∧
      ls.Perm (linksFrom w.finish exits w.stations ++ links)

/-- What was put first goes behind what belongs together. -/
theorem perm_behind {α : Type} (first second : List α) {third rest inner : List α}
    (h : third.Perm (rest ++ inner)) :
    (first ++ (second ++ third)).Perm (second ++ (rest ++ (first ++ inner))) := by
  refine (List.perm_append_comm_assoc first second third).trans (List.Perm.append_left _ ?_)
  exact (h.append_left first).trans (List.perm_append_comm_assoc first rest inner)

/-- A station before a way. -/
theorem Way.IsDrawn.cons {atlas : Atlas} {parent : Option String} {exits : Exits} {x : Station}
    {steps : List OrchestrationStep} {w : Way} {ns inner : List Graph.Node}
    {ls links : List Graph.Edge}
    {levels : List Level} (hx : x.IsDrawn atlas parent)
    (hinside : IsInside atlas (x.call? atlas).toList levels inner links)
    (h : w.IsDrawn atlas parent x.exits steps ns ls) :
    Way.IsDrawn atlas parent exits (x.step :: steps)
      ⟨x :: w.stations, w.finish, levels ++ w.levels⟩
      (x.node :: inner ++ ((x.condition.map Prod.fst).toList ++ ns))
      (links ++ (linkAll exits x.entry.id ++ x.inward ++ ls)) where
  steps_eq := by rw [List.map_cons, h.steps_eq]
  stations := List.forall_mem_cons.mpr ⟨hx, h.stations⟩
  finish := h.finish
  inside := by
    obtain ⟨inner', links', hinside', hns, hls⟩ := h.inside
    refine ⟨inner ++ inner', links ++ links', ?_, ?_, ?_⟩
    · have hcalls : (x :: w.stations).filterMap (Station.call? atlas) =
          (x.call? atlas).toList ++ w.stations.filterMap (Station.call? atlas) := by
        cases hcall : x.call? atlas <;> simp [hcall]
      rw [hcalls]
      exact hinside.append hinside'
    · simp only [List.flatMap_cons, Station.nodes, List.cons_append, List.append_assoc]
      refine List.Perm.cons _ ?_
      simpa using perm_behind inner (x.condition.map Prod.fst).toList hns
    · simpa [linksFrom] using perm_behind links (linkAll exits x.entry.id ++ x.inward) hls

namespace Atlas

variable {atlas : Atlas} {bound : Nat} {parent : Option String}

/-- Some steps drawn from some exits on, and the end behind them. -/
def drawRest (atlas : Atlas) (bound : Nat) (parent : Option String)
    (steps : List OrchestrationStep) (sofar : Drawing × Exits) : Drawing :=
  let (d, exits) := steps.foldl (atlas.drawStep bound parent) sofar
  let (d, finish) := d.addNode (finishNode parent)
  d.connectExits exits finish.id

/-- **Step.**  A step is drawn as a station, with the levels inside it, and so are those behind
it. -/
theorem exists_way (hlevels : atlas.DrawsLevels bound) (hparent : ∀ p ∈ parent, IsPlain p)
    {steps : List OrchestrationStep} (hplainly : CallsPlainly steps)
    (hcalled : ∀ s ∈ steps, ∀ subJourney, atlas.calledBy? s = some subJourney →
      CallsPlainly (OrchestrationStep.readAll subJourney) ∧
        atlas.endsWithin bound (OrchestrationStep.readAll subJourney) = true)
    (sofar : Drawing × Exits) :
    ∃ w ns ls, sofar.1.Adds (atlas.drawRest bound parent steps sofar) ns ls ∧
      Way.IsDrawn atlas parent sofar.2 steps w ns ls ∧ ∀ n ∈ ns, IsPlain n.id := by
  induction steps generalizing sofar with
  | nil =>
    let finish := (sofar.1.addNode (finishNode parent)).2
    have hnamed : finish.IsNamedAfter (finishNode parent) := Drawing.isNamedAfter_addNode _ _
    refine ⟨⟨[], finish, []⟩, [finish], linkAll sofar.2 finish.id,
      (sofar.1.adds_addNode _).trans (Drawing.adds_connectExits _ _ _), ⟨rfl, by simp, hnamed, ?_⟩,
      List.forall_mem_singleton.mpr (hnamed.isPlain ?_)⟩
    · exact ⟨[], [], IsInside.nil atlas, by simp, by simp [linksFrom]⟩
    · exact (isPlain_getD_root hparent).append ⟨by simp, by simp⟩
  | cons s steps ih =>
    obtain ⟨n, levels, inner, links, hentry, hid, hnamed, hinside, hinner⟩ :=
      exists_drawEntry hlevels hparent (hplainly s List.mem_cons_self)
        (hcalled s List.mem_cons_self) sofar.1
    obtain ⟨x, rfl, rfl, hguarded, hconditions, hexits⟩ := exists_drawPreconditions
      (atlas.drawEntry bound parent sofar.1 s).1 s n parent sofar.2
    obtain ⟨w, ns, ls, hrest, hway, hns⟩ := ih
      (fun s hs => hplainly s (List.mem_cons_of_mem _ hs))
      (fun s hs => hcalled s (List.mem_cons_of_mem _ hs))
      (atlas.drawStep bound parent sofar x.step)
    have hstep : atlas.drawStep bound parent sofar x.step =
        ((drawPreconditions (atlas.drawEntry bound parent sofar.1 x.step).1 x.step x.node.id parent
          sofar.2).1, x.exits) := by
      rw [drawStep, ← hexits, ← hid]
    rw [hstep] at hrest hway
    rw [show atlas.drawRest bound parent (x.step :: steps) sofar =
      atlas.drawRest bound parent steps (atlas.drawStep bound parent sofar x.step) from rfl, hstep]
    refine ⟨_, _, _, hentry.trans (hconditions.trans hrest),
      hway.cons ⟨hnamed, hguarded⟩ hinside, ?_⟩
    -- the names inside are plain, and that of the preconditions has the name of the step in front
    intro m hm
    rcases List.mem_append.mp hm with hm | hm
    · exact hinner m hm
    · rcases List.mem_append.mp hm with hm | hm
      · obtain ⟨first, hcondition⟩ := hguarded.exists_named m hm
        exact hcondition.isPlain
          ((hinner x.node List.mem_cons_self).append ⟨by simp, by simp⟩)
      · exact hns m hm

theorem drawsLevels_zero : atlas.DrawsLevels 0 := by
  intro parent steps d _ _ hends
  cases hends

/-- **Run.**  With the way of the steps between its start and its end, a level is drawn. -/
theorem DrawsLevels.succ
    (hatlas : ∀ id subJourney, atlas.subJourneys.get? id = some subJourney →
      CallsPlainly (OrchestrationStep.readAll subJourney))
    (hlevels : atlas.DrawsLevels bound) : atlas.DrawsLevels (bound + 1) := by
  intro parent steps d hparent hplainly hends
  -- what the steps call comes to an end within the depth below
  have hcalled (s : OrchestrationStep) (hs : s ∈ steps) (subJourney : Value)
      (hsub : atlas.calledBy? s = some subJourney) :
      CallsPlainly (OrchestrationStep.readAll subJourney) ∧
        atlas.endsWithin bound (OrchestrationStep.readAll subJourney) = true := by
    refine ⟨?_, List.all_eq_true.mp hends subJourney (List.mem_filterMap.mpr ⟨s, hs, hsub⟩)⟩
    unfold calledBy? at hsub
    split at hsub
    · exact hatlas _ _ hsub
    · cases hsub
  let start := (d.addNode (startNode parent)).2
  have hnamed : start.IsNamedAfter (startNode parent) := Drawing.isNamedAfter_addNode _ _
  obtain ⟨w, ns, ls, hadds, hway, hns⟩ := exists_way hlevels hparent hplainly hcalled
    ((d.addNode (startNode parent)).1, [(start.id, none)])
  obtain ⟨inner, links, hinside, hnodes, hlinks⟩ := hway.inside
  let level : Level := ⟨parent, start, w.stations, w.finish⟩
  have hlevel : level.IsDrawn atlas := ⟨hnamed, hway.finish, hway.stations⟩
  have hcall : level.called = (parent, steps) := by
    rw [← hway.steps_eq]
    rfl
  refine ⟨level :: w.levels, start :: ns, ls, (d.adds_addNode _).trans hadds, ?_,
    List.forall_mem_cons.mpr ⟨hnamed.isPlain ?_, hns⟩⟩
  · rw [← hcall]
    exact (hinside.cons hlevel).perm (hnodes.cons start) hlinks
  · exact (isPlain_getD_root hparent).append ⟨by simp, by simp⟩

/-- **Drawing steps adds the levels of the steps and of all they call**, if these come to an end
and are called by plain names. -/
theorem exists_levels
    (hatlas : ∀ id subJourney, atlas.subJourneys.get? id = some subJourney →
      CallsPlainly (OrchestrationStep.readAll subJourney)) (bound : Nat) :
    atlas.DrawsLevels bound := by
  induction bound with
  | zero => exact drawsLevels_zero
  | succ bound ih => exact ih.succ hatlas

end Atlas

end TrustFramework
