import Mathlib.Data.List.TakeDrop
import Mathlib.Data.List.TakeWhile
import TrustFramework.Json.Reader

/-!
# Where a value ends in a text

Reading a value takes characters from the front of a text and leaves the rest as it is.  An object
takes those from its opening brace to its closing one; so a text that spells an object begins and
ends with braces, but for blanks around them.

## Main results

* `suffix_of_readString`, `suffix_of_readNumber?`, `suffix_of_readWord?` — what is left of a text
  behind strings, numbers and words.
* `leaves_readValue` — **what is left behind a value**, and behind the closing brace of an object.
* `exists_braces_of_read?` — **a text that spells an object.**
-/

namespace TrustFramework
namespace Json

theorem suffix_skipSpace (cs : List Char) : skipSpace cs <:+ cs := List.dropWhile_suffix _

theorem suffix_of_skipSpace {cs rest : List Char} (h : skipSpace cs = rest) : rest <:+ cs :=
  h ▸ suffix_skipSpace cs

/-- A string leaves what stands behind its closing quote. -/
theorem suffix_of_readString {cs acc : List Char} {pending : Option Nat} {s rest : List Char}
    (h : readString cs acc pending = some (s, rest)) : rest <:+ cs := by
  fun_induction readString cs acc pending with
  | case1 => cases h
  | case2 acc pending tail =>
    cases h
    exact List.suffix_cons _ _
  | case3 => cases h
  | case4 acc pending a b c d tail n hn joined hjoined ih =>
    exact (ih h).trans (List.suffix_append [_, _, _, _, _, _] _)
  | case5 acc pending a b c d tail n hn hjoined ih =>
    exact (ih h).trans (List.suffix_append [_, _, _, _, _, _] _)
  | case6 acc pending e tail hu c hc ih => exact (ih h).trans (List.suffix_append [_, _] _)
  | case7 => cases h
  | case8 => cases h
  | case9 acc pending c tail _ _ _ _ ih => exact (ih h).trans (List.suffix_cons _ _)

/-! ### Numbers and words -/

theorem suffix_of_spanDigits {cs digits rest : List Char} (h : spanDigits cs = (digits, rest)) :
    rest <:+ cs := by
  rw [spanDigits, List.span_eq_takeWhile_dropWhile] at h
  cases h
  exact List.dropWhile_suffix _

theorem suffix_of_readWhole? {cs digits rest : List Char}
    (h : readWhole? cs = some (digits, rest)) : rest <:+ cs := by
  unfold readWhole? at h
  split at h
  · cases h
    exact List.suffix_cons _ _
  · split at h
    · cases h
    · next hspan =>
      cases h
      exact suffix_of_spanDigits hspan

theorem suffix_of_readFraction {cs digits rest : List Char}
    (h : readFraction cs = (digits, rest)) : rest <:+ cs := by
  unfold readFraction at h
  split at h
  · split at h
    · cases h
      exact List.suffix_refl _
    · next hspan =>
      cases h
      exact (suffix_of_spanDigits hspan).trans (List.suffix_cons _ _)
  · cases h
    exact List.suffix_refl _

theorem suffix_of_readExponent? {cs rest : List Char} {n : Int}
    (h : readExponent? cs = some (n, rest)) : rest <:+ cs := by
  unfold readExponent? at h
  split at h
  · next e tail =>
    split at h
    · dsimp only at h
      split at h
      · cases h
      · next hspan =>
        cases h
        refine (suffix_of_spanDigits hspan).trans (List.IsSuffix.trans ?_ (List.suffix_cons _ _))
        split
        · exact List.suffix_cons _ _
        · exact List.suffix_cons _ _
        · exact List.suffix_refl _
    · cases h
  · cases h

theorem suffix_of_readNumber? {negative : Bool} {cs rest : List Char} {v : Value}
    (h : readNumber? negative cs = some (v, rest)) : rest <:+ cs ∧ v.isObject = false := by
  unfold readNumber? at h
  cases hwhole : readWhole? cs with
  | none => simp [hwhole] at h
  | some whole =>
    obtain ⟨digits, behind⟩ := whole
    have hsuffix := suffix_of_readWhole? hwhole
    cases hfraction : readFraction behind with
    | mk fraction behind' =>
      have hsuffix' := (suffix_of_readFraction hfraction).trans hsuffix
      simp only [hwhole, hfraction, Option.bind_eq_bind, Option.bind_some] at h
      split at h
      · cases h
        exact ⟨hsuffix', rfl⟩
      · cases hexponent : readExponent? behind' with
        | none =>
          rw [hexponent] at h
          cases h
          exact ⟨hsuffix', rfl⟩
        | some exponent =>
          rw [hexponent] at h
          cases h
          exact ⟨(suffix_of_readExponent? hexponent).trans hsuffix', rfl⟩

theorem suffix_of_readWord? {word : String} {v w : Value} (hv : v.isObject = false)
    {cs rest : List Char} (h : readWord? word v cs = some (w, rest)) :
    rest <:+ cs ∧ w.isObject = false := by
  unfold readWord? at h
  split at h
  · cases h
    exact ⟨List.drop_suffix _ _, hv⟩
  · cases h

/-! ### Values -/

/-- What reading a value leaves: the end of the text.  Of an object it takes an opening brace, and
a closing one last. -/
structure Leaves (cs : List Char) (v : Value) (rest : List Char) : Prop where
  suffix : rest <:+ cs
  braces : v.isObject = true → ∃ inner, cs = '\x7b' :: inner ∧ '\x7d' :: rest <:+ inner

theorem Leaves.of_suffix {cs rest : List Char} {v : Value}
    (h : rest <:+ cs ∧ v.isObject = false) : Leaves cs v rest :=
  ⟨h.1, fun hobject => by rw [h.2] at hobject; cases hobject⟩

section

variable {fuel : Nat} (hvalue : ∀ {cs rest : List Char} {v : Value},
  readValue fuel cs = some (v, rest) → Leaves cs v rest)

include hvalue

/-- The items of a list leave what stands behind its bracket. -/
theorem suffix_of_readItems_succ
    (hitems : ∀ {cs rest : List Char} {acc : List Value} {v : Value},
      readItems fuel cs acc = some (v, rest) → rest <:+ cs ∧ v.isObject = false)
    {cs rest : List Char} {acc : List Value} {v : Value}
    (h : readItems (fuel + 1) cs acc = some (v, rest)) : rest <:+ cs ∧ v.isObject = false := by
  rw [readItems] at h
  obtain ⟨⟨item, behind⟩, hitem, h⟩ := Option.bind_eq_some_iff.mp h
  have hsuffix := (hvalue hitem).suffix
  dsimp only at h
  split at h
  · next tail htail =>
    obtain ⟨hrest, hkind⟩ := hitems h
    have htail' : tail <:+ behind := (List.suffix_cons _ _).trans (suffix_of_skipSpace htail)
    exact ⟨hrest.trans ((suffix_skipSpace _).trans (htail'.trans hsuffix)), hkind⟩
  · next htail =>
    cases h
    exact ⟨((List.suffix_cons _ _).trans (suffix_of_skipSpace htail)).trans hsuffix, rfl⟩
  · cases h

/-- The fields of an object leave what stands behind its brace. -/
theorem suffix_of_readFields_succ
    (hfields : ∀ {cs rest : List Char} {acc : List (String × Value)} {v : Value},
      readFields fuel cs acc = some (v, rest) → '\x7d' :: rest <:+ cs)
    {cs rest : List Char} {acc : List (String × Value)} {v : Value}
    (h : readFields (fuel + 1) cs acc = some (v, rest)) : '\x7d' :: rest <:+ cs := by
  rw [readFields.eq_def] at h
  dsimp only at h
  split at h
  · next quoted =>
    obtain ⟨⟨name, behind⟩, hname, h⟩ := Option.bind_eq_some_iff.mp h
    have hsuffix : behind <:+ '"' :: quoted :=
      (suffix_of_readString hname).trans (List.suffix_cons _ _)
    dsimp only at h
    split at h
    · next tail htail =>
      obtain ⟨⟨field, behind'⟩, hfield, h⟩ := Option.bind_eq_some_iff.mp h
      have htail' : tail <:+ behind := (List.suffix_cons _ _).trans (suffix_of_skipSpace htail)
      have hsuffix' : behind' <:+ '"' :: quoted := (hvalue hfield).suffix.trans
        ((suffix_skipSpace _).trans (htail'.trans hsuffix))
      dsimp only at h
      split at h
      · next more hmore =>
        have hmore' : more <:+ behind' := (List.suffix_cons _ _).trans (suffix_of_skipSpace hmore)
        exact (hfields h).trans ((suffix_skipSpace _).trans (hmore'.trans hsuffix'))
      · next hend =>
        cases h
        exact (suffix_of_skipSpace hend).trans hsuffix'
      · cases h
    · cases h
  · cases h

end

/-- A value leaves the end of the text, given that its parts do. -/
theorem leaves_of_readValue_succ {fuel : Nat}
    (hitems : ∀ {cs rest : List Char} {acc : List Value} {v : Value},
      readItems fuel cs acc = some (v, rest) → rest <:+ cs ∧ v.isObject = false)
    (hfields : ∀ {cs rest : List Char} {acc : List (String × Value)} {v : Value},
      readFields fuel cs acc = some (v, rest) → '\x7d' :: rest <:+ cs)
    {cs rest : List Char} {v : Value} (h : readValue (fuel + 1) cs = some (v, rest)) :
    Leaves cs v rest := by
  rw [readValue.eq_def] at h
  dsimp only at h
  split at h
  · next quoted =>
    obtain ⟨⟨s, behind⟩, hs, heq⟩ := Option.map_eq_some_iff.mp h
    cases heq
    exact .of_suffix ⟨(suffix_of_readString hs).trans (List.suffix_cons _ _), rfl⟩
  · next inner =>
    split at h
    · next hend =>
      cases h
      exact .of_suffix ⟨((List.suffix_cons _ _).trans (suffix_of_skipSpace hend)).trans
        (List.suffix_cons _ _), rfl⟩
    · obtain ⟨hrest, hkind⟩ := hitems h
      exact .of_suffix ⟨(hrest.trans (suffix_skipSpace _)).trans (List.suffix_cons _ _), hkind⟩
  · next inner =>
    have hbraces : '\x7d' :: rest <:+ inner := by
      split at h
      · next hend =>
        cases h
        exact suffix_of_skipSpace hend
      · exact (hfields h).trans (suffix_skipSpace _)
    exact ⟨((List.suffix_cons _ _).trans hbraces).trans (List.suffix_cons _ _),
      fun _ => ⟨inner, rfl, hbraces⟩⟩
  -- no word and no number is an object
  · exact .of_suffix (suffix_of_readWord? rfl h)
  · exact .of_suffix (suffix_of_readWord? rfl h)
  · exact .of_suffix (suffix_of_readWord? rfl h)
  · exact .of_suffix (suffix_of_readWord? rfl h)
  · exact .of_suffix (suffix_of_readWord? rfl h)
  · exact .of_suffix (suffix_of_readWord? rfl h)
  · obtain ⟨hrest, hkind⟩ := suffix_of_readNumber? h
    exact .of_suffix ⟨hrest.trans (List.suffix_cons _ _), hkind⟩
  · exact .of_suffix (suffix_of_readNumber? h)

/-- **What is left behind a value.** -/
theorem leaves_readValue {fuel : Nat} {cs rest : List Char} {v : Value}
    (h : readValue fuel cs = some (v, rest)) : Leaves cs v rest := by
  have hall : ∀ fuel,
      (∀ {cs rest : List Char} {v : Value}, readValue fuel cs = some (v, rest) →
        Leaves cs v rest) ∧
      (∀ {cs rest : List Char} {acc : List Value} {v : Value},
        readItems fuel cs acc = some (v, rest) → rest <:+ cs ∧ v.isObject = false) ∧
      (∀ {cs rest : List Char} {acc : List (String × Value)} {v : Value},
        readFields fuel cs acc = some (v, rest) → '\x7d' :: rest <:+ cs) := by
    intro fuel
    induction fuel with
    | zero =>
      refine ⟨fun h => ?_, fun h => ?_, fun h => ?_⟩
      · rw [readValue] at h
        cases h
      · rw [readItems] at h
        cases h
      · rw [readFields] at h
        cases h
    | succ fuel ih =>
      obtain ⟨hvalue, hitems, hfields⟩ := ih
      exact ⟨leaves_of_readValue_succ hitems hfields, suffix_of_readItems_succ hvalue hitems,
        suffix_of_readFields_succ hvalue hfields⟩
  exact (hall fuel).1 h

/-- **A text that spells an object** begins and ends with braces, but for blanks around them. -/
theorem exists_braces_of_read? {s : String} {fields : Fields Value}
    (h : read? s = some (.object fields)) : ∃ before inner after,
      s.toList = before ++ '\x7b' :: (inner ++ '\x7d' :: after) ∧
        (∀ c ∈ before, isSpace c = true) ∧ ∀ c ∈ after, isSpace c = true := by
  unfold read? at h
  dsimp only at h
  split at h
  · next v rest hvalue =>
    split at h
    · next hempty =>
      cases h
      obtain ⟨inner, hopening, before, hclosing⟩ := (leaves_readValue hvalue).braces rfl
      refine ⟨s.toList.takeWhile isSpace, before, rest, ?_, ?_, ?_⟩
      · rw [hclosing, ← hopening]
        exact (List.takeWhile_append_dropWhile).symm
      · intro c hc
        exact List.mem_takeWhile_imp hc
      · exact List.dropWhile_eq_nil_iff.mp (List.isEmpty_iff.mp hempty)
    · cases h
  · cases h

end Json
end TrustFramework
