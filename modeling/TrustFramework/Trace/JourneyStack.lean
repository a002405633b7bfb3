import TrustFramework.Value

/-!
# The stack of journeys

The main journey is at the bottom and is never left; on top is the journey that runs.

* `JourneyStack` — the journeys inside each other, and the operations on them.
* `journeyName` — the name of the journey of a policy.
-/

namespace TrustFramework

/-- A journey that has been entered. -/
structure JourneyEntry where
  id : Value
  name : Value
  /-- The step the journey is at. -/
  orchStep : Int := 0
  depth : Nat := 0
  deriving Repr, Inhabited

/-- The journeys that have been entered and not left, the main one apart. -/
structure JourneyStack where
  root : JourneyEntry
  /-- The sub-journeys, the one that runs first. -/
  inner : List JourneyEntry := []
  deriving Repr, Inhabited

namespace JourneyStack

/-- The stack of a main journey. -/
def ofMain (id name : String) : JourneyStack := ⟨{ id := .text id, name := .text name }, []⟩

/-- The journey that runs. -/
def current (s : JourneyStack) : JourneyEntry := s.inner.headD s.root

/-- How many sub-journeys lie inside each other. -/
def depth (s : JourneyStack) : Nat := s.inner.length

/-- The entry of a sub-journey on top of a stack. -/
def entry (s : JourneyStack) (id name : Value) : JourneyEntry :=
  { id, name, depth := s.depth + 1 }

/-- A sub-journey entered. -/
def push (s : JourneyStack) (id name : Value) : JourneyStack :=
  { s with inner := s.entry id name :: s.inner }

/-- The sub-journey that runs left; the main journey is not. -/
def pop (s : JourneyStack) : JourneyStack := { s with inner := s.inner.tail }

/-- The sub-journey that leaving would leave. -/
def top? (s : JourneyStack) : Option JourneyEntry := s.inner.head?

/-- The journey that runs moved to a step. -/
def atStep (s : JourneyStack) (step : Int) : JourneyStack :=
  match s.inner with
  | [] => { s with root := { s.root with orchStep := step } }
  | top :: rest => { s with inner := { top with orchStep := step } :: rest }

/-- The journeys from the main one up. -/
def path (s : JourneyStack) : List Value := s.root.id :: (s.inner.map JourneyEntry.id).reverse

end JourneyStack

/-- A journey that has been entered for a report. -/
def JourneyEntry.toValue (e : JourneyEntry) : Value :=
  .object [("journeyId", e.id), ("journeyName", e.name), ("lastOrchStep", .int e.orchStep),
    ("depth", .int e.depth)]

/-! ### Names of journeys -/

/-- What the names of policies may start with. -/
def policyNameStarts : List String := ["B2C_1A_", "DEV_", "PROD_", "TEST_", "GlobalApp_"]

/-- A text without a start, in any case. -/
def withoutStart (s start : String) : String :=
  if start.toLower.toList.isPrefixOf (s.toList.map Char.toLower) then
    String.ofList (s.toList.drop start.length)
  else s

/-- The letters of regions: the Latin ones, and the four others that are such a letter in
another case. -/
def isRegionLetter (c : Char) : Bool :=
  let n := c.toNat
  (0x41 ≤ n && n ≤ 0x5a) || (0x61 ≤ n && n ≤ 0x7a) || n = 0x130 || n = 0x131 || n = 0x17f ||
    n = 0x212a

/-- A text without a region at its end: an underscore and two letters. A line end behind
them stays. -/
def withoutRegion (s : String) : String :=
  match s.toList.reverse with
  | '\n' :: b :: a :: '_' :: rest =>
    if isRegionLetter a && isRegionLetter b then String.ofList (rest.reverse ++ ['\n']) else s
  | b :: a :: '_' :: rest =>
    if isRegionLetter a && isRegionLetter b then String.ofList rest.reverse else s
  | _ => s

/-- The name of the journey of a policy: its identifier without what the names of policies
start with and without a region; the identifier if nothing is left. -/
def journeyName (policyId : String) : String :=
  let name := withoutRegion (policyNameStarts.foldl withoutStart policyId)
  if name.isEmpty then policyId else name

end TrustFramework
