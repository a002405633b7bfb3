/-!
# Line ends

A text can mark the ends of its lines by a line feed, by a carriage return, or by both.

* `settleLineEnds` — every line end made a line feed.
-/

namespace TrustFramework
namespace Text

/-- A text with every line end made a line feed. -/
def settleLineEnds : List Char → List Char
  | [] => []
  | '\r' :: '\n' :: rest => '\n' :: settleLineEnds rest
  | '\r' :: rest => '\n' :: settleLineEnds rest
  | c :: rest => c :: settleLineEnds rest

/-- A text with line feeds for line ends. -/
def withLineFeeds (s : String) : String := String.ofList (settleLineEnds s.toList)

/-- What stands for a detail that is not told, such as where a text is not well formed. -/
def untold : String := "<detail>"

end Text
end TrustFramework
