/-!
# Texts divided at a character

* `atLast?`, `atFirst?` — what stands before and behind the last, or the first,
  occurrence of a character.
* `afterLast` — what stands behind the last occurrence, or everything.
-/

namespace TrustFramework
namespace Text

/-- A text divided at the first occurrence of a character, if it has one. -/
def atFirst? (c : Char) (s : String) : Option (String × String) :=
  match s.toList.dropWhile (· ≠ c) with
  | [] => none
  | _ :: after =>
    some (String.ofList (s.toList.takeWhile (· ≠ c)), String.ofList after)

/-- A text divided at the last occurrence of a character, if it has one. -/
def atLast? (c : Char) (s : String) : Option (String × String) :=
  match s.toList.reverse.dropWhile (· ≠ c) with
  | [] => none
  | _ :: before =>
    some (String.ofList before.reverse,
      String.ofList (s.toList.reverse.takeWhile (· ≠ c)).reverse)

/-- The part of a text behind the last occurrence of a character; the text itself if
there is none. -/
def afterLast (c : Char) (s : String) : String := ((atLast? c s).map Prod.snd).getD s

end Text
end TrustFramework
