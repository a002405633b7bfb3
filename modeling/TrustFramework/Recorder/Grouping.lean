import TrustFramework.Recorder.Clip

/-!
# Groups of clips

The clips of a log tell which handlers ran. A handler is an action, together with
the predicate right before it that has no result of its own; or it is a predicate
with a result. A result belongs to the last action or predicate before it.

* `HandlerGroup` — a handler with its guard, its result and its clips.
* `nextResult?` — the result that comes before any other handler.
* `handlerGroups` — the groups of a log.
* `Summary`, `Summary.ofClips` — the groups and whatever else a log reports.
-/

namespace TrustFramework

/-- The clips of one handler. -/
structure HandlerGroup where
  handler : String
  /-- The predicate that let the handler run. -/
  predicate : Option String
  result : Option HandlerResult
  clips : List Clip
  /-- The place of the handler among the clips of its log. -/
  index : Nat
  deriving Repr, Inhabited

/-- A change of state, by its place among the clips of its log. -/
structure Transition where
  eventName : String
  stateName : String
  index : Nat
  deriving DecidableEq, Repr

namespace Clip

/-- Whether a clip names a handler. -/
def isBoundary : Clip → Bool
  | predicate _ => true
  | action _ => true
  | _ => false

end Clip

/-- The first result among clips before any of them names a handler. -/
def nextResult? : List Clip → Option HandlerResult
  | [] => none
  | .handlerResult r :: _ => some r
  | clip :: rest => if clip.isBoundary then none else nextResult? rest

/-- The clips before any of them names a handler. -/
def untilBoundary (clips : List Clip) : List Clip :=
  clips.takeWhile fun clip => !clip.isBoundary

/-- A predicate without a result yet, with the clips since. -/
structure Pending where
  handler : String
  index : Nat
  clips : List Clip

/-- The groups of clips that stand at a place, behind a predicate that waits for a
result if one does. -/
def groupsFrom (index : Nat) (pending : Option Pending) : List Clip → List HandlerGroup
  | [] => []
  | clip :: rest =>
    match clip, pending with
    | .predicate handler, _ => groupsFrom (index + 1) (some ⟨handler, index, [clip]⟩) rest
    | .action handler, pending =>
      { handler
        predicate := pending.map Pending.handler
        result := nextResult? rest
        clips := (pending.map Pending.clips).getD [] ++ clip :: untilBoundary rest
        index } :: groupsFrom (index + 1) none rest
    | .handlerResult r, some p =>
      { handler := p.handler
        predicate := some p.handler
        result := some r
        clips := p.clips ++ [clip]
        index := p.index } :: groupsFrom (index + 1) none rest
    | _, pending =>
      groupsFrom (index + 1) (pending.map fun p => { p with clips := p.clips ++ [clip] }) rest

/-- The groups of a log. -/
def handlerGroups (clips : List Clip) : List HandlerGroup := groupsFrom 0 none clips

/-! ### What else a log reports -/

/-- The headers of a log, if it has any. -/
def headersOf? (clips : List Clip) : Option Headers :=
  clips.findSome? fun
    | .headers h => some h
    | _ => none

/-- The changes of state that a log reports. -/
def transitionsOf (clips : List Clip) : List Transition :=
  clips.zipIdx.filterMap fun
    | (.transition eventName stateName, index) => some ⟨eventName, stateName, index⟩
    | _ => none

/-- The last exception that ended a log, with its time. -/
def fatalOf? (clips : List Clip) : Option (RecordedException × Option String) :=
  clips.reverse.findSome? fun
    | .fatal exception time => some (exception, time)
    | _ => none

/-- What is wrong with the clips of known kinds: their kinds, contents and problems. -/
def malformedOf (clips : List Clip) : List (String × Value × String) :=
  clips.filterMap fun
    | .unrecognized kind content (some problem) =>
      if problem.isEmpty then none else some (kind, content, problem)
    | _ => none

end TrustFramework
