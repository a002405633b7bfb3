import TrustFramework.Graph.Journey
import TrustFramework.Proofs.Sorting

/-!
# Drawing step by step

Steps are drawn one after the other between a start and an end.  For each, its own node is added,
or a group with all that is drawn in it; then the node of its preconditions and the edges that
lead to it.

## Main definitions

* `Atlas.drawEntry`, `Atlas.drawStep` — what is drawn for a step.
* `Drawing.IsWarning` — what drawing warns of.

## Main results

* `Atlas.drawSteps_succ` — steps are drawn one by one.
* `Atlas.drawSteps_induction` — **what every new node and edge keeps holds of all that is drawn.**
-/

namespace TrustFramework

/-- The identifiers of the nodes of a graph. -/
def Graph.ids (g : Graph) : List String := g.nodes.map Node.id

/-- Nodes with open handles, from which the next edges go. -/
abbrev Exits := List (String × Option String)

/-- The node before the first step. -/
def startNode (parent : Option String) : Graph.Node :=
  { id := parent.getD "root" ++ "-start"
    type := .start
    data := [("label", .text "Start")]
    parent }

/-- The node after the last step. -/
def finishNode (parent : Option String) : Graph.Node :=
  { id := parent.getD "root" ++ "-end"
    type := .finish
    data := [("label", .text "End")]
    parent }

/-- Steps that stand in the order of their numbers are read as they stand. -/
theorem OrchestrationStep.readAll_of_ordered {journey : Value}
    (h : (((Policy.Node.children journey ["OrchestrationSteps", "OrchestrationStep"]).filter
      Value.isObject).map read).Pairwise fun a b => a.order ≤ b.order) :
    readAll journey =
      ((Policy.Node.children journey ["OrchestrationSteps", "OrchestrationStep"]).filter
        Value.isObject).map read :=
  mergeSort_eq_self order h

/-- Steps are read in the order of their numbers. -/
theorem OrchestrationStep.pairwise_readAll (journey : Value) :
    (readAll journey).Pairwise fun a b => a.order ≤ b.order :=
  pairwise_le_mergeSort order _

/-- What drawing warns of: a step that should name a sub-journey and does not, and a sub-journey
that the policy does not have. -/
inductive Drawing.IsWarning : String → Prop
  | unnamed (order : Int) :
    IsWarning ("InvokeSubJourney step " ++ toString order ++ " has no SubJourneyReferenceId")
  | missing (id : String) : IsWarning ("SubJourney with ID '" ++ id ++ "' not found.")

namespace Atlas

/-- A step that should name a sub-journey and does not is warned of. -/
def warnUnnamed (d : Drawing) (s : OrchestrationStep) : Drawing :=
  if s.subJourneys.isEmpty then
    d.warn ("InvokeSubJourney step " ++ toString s.order ++ " has no SubJourneyReferenceId")
  else d

/-- The group of a step that calls a sub-journey, with nothing in it yet. -/
def addGroup (atlas : Atlas) (parent : Option String) (d : Drawing) (s : OrchestrationStep) :
    Drawing × Graph.Node :=
  (warnUnnamed d s).addNode
    (groupNode s (subJourneyOf s) (atlas.subJourneys.get? (subJourneyOf s)) parent)

/-- A step without its preconditions and edges: its node, or a group with what lies in it.  Gives
the node that stands for the step. -/
def drawEntry (atlas : Atlas) (bound : Nat) (parent : Option String) (d : Drawing)
    (s : OrchestrationStep) : Drawing × String :=
  if s.kind = "InvokeSubJourney" then
    let (d, group) := atlas.addGroup parent d s
    match atlas.subJourneys.get? (subJourneyOf s) with
    | none => (d.warn ("SubJourney with ID '" ++ subJourneyOf s ++ "' not found."), group.id)
    | some node =>
      (drawSteps atlas bound (some group.id) (OrchestrationStep.readAll node) d, group.id)
  else
    let (d, node) := d.addNode (atlas.stepNode s parent)
    (d, node.id)

/-- A step with its preconditions and the edges to it. -/
def drawStep (atlas : Atlas) (bound : Nat) (parent : Option String) (sofar : Drawing × Exits)
    (s : OrchestrationStep) : Drawing × Exits :=
  let (d, entry) := atlas.drawEntry bound parent sofar.1 s
  let (d, past) := drawPreconditions d s entry parent sofar.2
  (d, (entry, none) :: past)

/-- Steps are drawn one by one. -/
theorem drawSteps_succ (atlas : Atlas) (bound : Nat) (parent : Option String)
    (steps : List OrchestrationStep) (d : Drawing) :
    atlas.drawSteps (bound + 1) parent steps d =
      let (d, start) := d.addNode (startNode parent)
      let (d, exits) := steps.foldl (atlas.drawStep bound parent) (d, [(start.id, none)])
      let (d, finish) := d.addNode (finishNode parent)
      d.connectExits exits finish.id := by
  rfl

/-! ### What drawing keeps -/

section

variable {motive : Drawing → Prop}
  (hnode : ∀ d n, motive d → motive (d.addNode n).1)
  (hconnect : ∀ d source target handle, motive d → motive (d.connect source target handle))
  (hwarn : ∀ d warning, Drawing.IsWarning warning → motive d → motive (d.warn warning))

include hconnect in
theorem connectExits_induction {d : Drawing} (exits : Exits) (target : String) (h : motive d) :
    motive (d.connectExits exits target) := by
  induction exits generalizing d with
  | nil => exact h
  | cons exit exits ih => exact ih (hconnect d exit.1 target exit.2 h)

include hnode hconnect in
theorem drawPreconditions_induction {d : Drawing} (s : OrchestrationStep) (entry : String)
    (parent : Option String) (exits : Exits) (h : motive d) :
    motive (drawPreconditions d s entry parent exits).1 := by
  unfold drawPreconditions
  split
  · exact connectExits_induction hconnect exits entry h
  · exact hconnect _ _ _ _ (connectExits_induction hconnect exits _ (hnode _ _ h))

include hnode hconnect hwarn in
/-- **What every new node and edge keeps holds of all that is drawn.** -/
theorem drawSteps_induction (atlas : Atlas) (bound : Nat) (parent : Option String)
    (steps : List OrchestrationStep) {d : Drawing} (h : motive d) :
    motive (atlas.drawSteps bound parent steps d) := by
  induction bound generalizing parent steps d with
  | zero => exact h
  | succ bound ih =>
    have hentry (d : Drawing) (s : OrchestrationStep) (h : motive d) :
        motive (atlas.drawEntry bound parent d s).1 := by
      unfold drawEntry
      dsimp only
      split
      · have hwarned : motive (warnUnnamed d s) := by
          unfold warnUnnamed
          split
          · exact hwarn _ _ (.unnamed _) h
          · exact h
        have hgroup := hnode _ (groupNode s (subJourneyOf s)
          (atlas.subJourneys.get? (subJourneyOf s)) parent) hwarned
        split
        · exact hwarn _ _ (.missing _) hgroup
        · exact ih _ _ hgroup
      · exact hnode _ _ h
    have hsteps (sofar : Drawing × Exits) (h : motive sofar.1) :
        motive (steps.foldl (atlas.drawStep bound parent) sofar).1 := by
      induction steps generalizing sofar with
      | nil => exact h
      | cons s steps ihsteps =>
        exact ihsteps _ (drawPreconditions_induction hnode hconnect s _ parent _ (hentry _ s h))
    rw [drawSteps_succ]
    exact connectExits_induction hconnect _ _ (hnode _ _ (hsteps _ (hnode _ _ h)))

end

end Atlas

end TrustFramework
