import TrustFramework.Json.Reader
import TrustFramework.Text.Blank

/-!
# Dimensions of rows

A row of an export carries dimensions that tell what it belongs to. They are an object,
or the text of one, and go by several names.

* `Dimensions` — the dimensions of a row.
* `Dimensions.read` — the dimensions that a value holds.
-/

namespace TrustFramework

/-- What a row belongs to; what is unknown is empty. -/
structure Dimensions where
  correlationId : String := ""
  eventName : String := ""
  tenant : String := ""
  userJourney : String := ""
  version : String := ""
  deriving DecidableEq, Repr, Inhabited

namespace Dimensions

/-- The text of a field without the blanks around it, unless nothing is left. -/
def fieldText? (v : Value) (name : String) : Option String :=
  (v.get name).text?.bind fun s => if (Text.trim s).isEmpty then none else some (Text.trim s)

/-- The first text among fields of some names, empty if there is none. -/
def firstText (v : Value) (names : List String) : String :=
  (names.findSome? (fieldText? v)).getD ""

/-- The object that a value is or spells. -/
def objectOf (v : Value) : Value :=
  match v with
  | .text s => (Json.read? s).getD .null
  | v => v

/-- The dimensions that a value holds. -/
def read (v : Value) : Dimensions :=
  let v := objectOf v
  { correlationId := firstText v ["CorrelationId", "correlationId", "operation_Id"]
    eventName := firstText v ["EventName", "eventName"]
    tenant := firstText v ["TenantId", "Tenant", "tenant"]
    userJourney := firstText v ["PolicyId", "UserJourney", "userJourney", "policyId"]
    version := firstText v ["Version", "version"] }

/-- Dimensions for a report. -/
def toValue (d : Dimensions) : Value :=
  .object [("correlationId", .text d.correlationId), ("eventName", .text d.eventName),
    ("tenant", .text d.tenant), ("userJourney", .text d.userJourney),
    ("version", .text d.version)]

end Dimensions
end TrustFramework
