import TrustFramework.Proofs.Entity.Collection
import TrustFramework.Proofs.Xml.Characters

/-!
# Names and their namespaces

A written name is resolved to the namespace of its prefix and what stands behind the colon, and
the two can be told apart again: a namespace that may be declared has no closing brace, and no
name begins with an opening one.

## Main definitions

* `IsSoundScope` — the namespaces in scope can stand in front of names.

## Main results

* `splitClark_clark` — **a name with its namespace is taken apart again.**
* `bareName_resolve?` — the name of an element has a namespace, and the bare name stays.
-/

namespace TrustFramework
namespace Xml

/-! ### Names in scope -/

/-- The namespaces in scope can stand in names in Clark notation. -/
def IsSoundScope (scope : Fields String) : Prop := ∀ e ∈ scope, '\x7d' ∉ e.2.toList

theorem IsSoundScope.bindAll? {scope inner : Fields String} (h : IsSoundScope scope)
    {attributes : List (String × String)} (hinner : Xml.bindAll? scope attributes = some inner) :
    IsSoundScope inner := by
  induction attributes generalizing scope with
  | nil =>
    cases hinner
    exact h
  | cons a attributes ih =>
    obtain ⟨name, value⟩ := a
    rw [Xml.bindAll?] at hinner
    split at hinner
    · exact ih h hinner
    · split at hinner
      · next pre hpre hbind =>
        refine ih (List.forall_mem_cons.mpr ⟨?_, h⟩) hinner
        simp only [mayBind, Bool.and_eq_true, Bool.not_eq_true', List.contains_eq_mem,
          decide_eq_false_iff_not] at hbind
        exact hbind.1.1.2
      · cases hinner

theorem IsSoundScope.get? {scope : Fields String} (h : IsSoundScope scope) {pre uri : String}
    (huri : scope.get? pre = some uri) : '\x7d' ∉ uri.toList :=
  h _ (Fields.mem_of_get? huri)

/-- A name with its namespace is taken apart again. -/
theorem splitClark_clark {uri name : String} (huri : '\x7d' ∉ uri.toList)
    (hname : name.toList.head? ≠ some '\x7b') : splitClark (clark uri name) = (uri, name) := by
  rw [clark]
  split
  · next hempty =>
    have huri : uri = "" := by simpa using hempty
    rw [splitClark]
    split
    · next rest heq => rw [heq] at hname; exact absurd rfl hname
    · rw [huri]
  · next hempty =>
    have hlist : ("\x7b" ++ uri ++ "\x7d" ++ name).toList =
        '\x7b' :: (uri.toList ++ '\x7d' :: name.toList) := by
      have hopen : "\x7b".toList = ['\x7b'] := rfl
      have hclose : "\x7d".toList = ['\x7d'] := rfl
      simp [hopen, hclose]
    have hspan : (uri.toList ++ '\x7d' :: name.toList).span (· ≠ '\x7d') =
        (uri.toList, '\x7d' :: name.toList) := by
      refine span_append (fun x hx => ?_) ?_
      · have : x ≠ '\x7d' := fun h => huri (h ▸ hx)
        simpa using this
      · rintro x ⟨⟩
        simp
    rw [splitClark, hlist]
    simp only [hspan, String.ofList_toList]

theorem head?_ne_of_isWord {name : String} (h : isWord name.toList = true) :
    name.toList.head? ≠ some '\x7b' := fun hhead =>
  ne_of_isWord h (by decide) (List.mem_of_mem_head? hhead)

theorem bareName_clark {uri name : String} (huri : '\x7d' ∉ uri.toList)
    (h : isWord name.toList = true) : bareName (clark uri name) = name := by
  rw [bareName, splitClark_clark huri (head?_ne_of_isWord h)]

/-! ### Prefixes -/

theorem not_mem_of_isName {cs : List Char} (h : isName cs = true) : ':' ∉ cs := by
  intro hmem
  have := all_isNameChar_of_isName h _ hmem
  exact absurd this (by decide)

/-- A simple name has no prefix. -/
theorem splitName_of_isName {name : String} (h : isName name.toList = true) :
    splitName name = ("", name) := by
  have hspan : name.toList.span (· ≠ ':') = (name.toList, []) := by
    have hcolon : ∀ c ∈ name.toList, decide (c ≠ ':') = true := by
      intro c hc
      have : c ≠ ':' := fun heq => not_mem_of_isName h (heq ▸ hc)
      simpa using this
    have := span_append (p := fun c => decide (c ≠ ':')) hcolon
      (by simp : ∀ c ∈ ([] : List Char).head?, decide (c ≠ ':') = false)
    rwa [List.append_nil] at this
  rw [splitName, hspan]
  simp

/-- A prefix goes up to the first colon. -/
theorem splitName_prefixed {pre name : List Char} (hpre : ':' ∉ pre) :
    splitName (String.ofList (pre ++ ':' :: name)) = (String.ofList pre, String.ofList name) := by
  have hspan : (pre ++ ':' :: name).span (· ≠ ':') = (pre, ':' :: name) := by
    refine span_append (fun c hc => ?_) ?_
    · have : c ≠ ':' := fun heq => hpre (heq ▸ hc)
      simpa using this
    · rintro c ⟨⟩
      simp
  rw [splitName, String.toList_ofList, hspan]
  rfl

theorem splitName_append {pre : String} (hpre : isName pre.toList = true) (name : String) :
    splitName (pre ++ ":" ++ name) = (pre, name) := by
  have hlist : pre ++ ":" ++ name = String.ofList (pre.toList ++ ':' :: name.toList) := by
    rw [← String.toList_inj]
    simp
  rw [hlist, splitName_prefixed (not_mem_of_isName hpre), String.ofList_toList, String.ofList_toList]

/-- A qualified name is a simple one, or has two simple halves. -/
theorem splitName_cases {name : String} (h : IsQualifiedName name.toList) :
    isName name.toList = true ∧ splitName name = ("", name) ∨
      ∃ pre bare, isName pre.toList = true ∧ isName bare.toList = true ∧
        name = pre ++ ":" ++ bare ∧ splitName name = (pre, bare) := by
  generalize hlist : name.toList = cs at h
  have hname : name = String.ofList cs := by rw [← hlist, String.ofList_toList]
  cases h with
  | simple h =>
    have h' : isName name.toList = true := hlist ▸ h
    exact Or.inl ⟨h, splitName_of_isName h'⟩
  | @prefixed pre bare hpre h =>
    refine Or.inr ⟨String.ofList pre, String.ofList bare, ?_, ?_, ?_, ?_⟩
    · rwa [String.toList_ofList]
    · rwa [String.toList_ofList]
    · rw [hname, ← String.toList_inj]
      simp
    · rw [hname, splitName_prefixed (not_mem_of_isName hpre)]

theorem ne_empty_of_isName {name : String} (h : isName name.toList = true) : name ≠ "" := by
  rintro rfl
  exact absurd h (by decide)

/-- The halves of a name are made of the characters of names if the name is. -/
theorem isWord_splitName {name : String} (h : isWord name.toList = true) :
    isWord (splitName name).1.toList = true ∧ isWord (splitName name).2.toList = true := by
  unfold splitName
  generalize hspan : name.toList.span (· ≠ ':') = found
  obtain ⟨front, rest⟩ := found
  rw [(of_span hspan).1, isWord_append, Bool.and_eq_true] at h
  split
  · next second heq =>
    cases heq
    have hsecond := h.2
    rw [isWord, List.all_cons, Bool.and_eq_true] at hsecond
    dsimp only
    rw [String.toList_ofList, String.toList_ofList]
    exact ⟨h.1, hsecond.2⟩
  · next heq =>
    cases heq
    have hfront : isWord (String.ofList front).toList = true := by
      rw [String.toList_ofList]
      exact h.1
    exact ⟨rfl, hfront⟩

/-- A resolved name is the namespace of its prefix and what stands behind the colon. -/
theorem of_resolve? {scope : Fields String} (hscope : IsSoundScope scope)
    {isElement : Bool} {name resolved : String} (h : isWord name.toList = true)
    (hresolved : resolve? scope isElement name = some resolved) :
    ∃ uri, '\x7d' ∉ uri.toList ∧ resolved = clark uri (splitName name).2 := by
  have hword := isWord_splitName h
  unfold resolve? at hresolved
  split at hresolved
  · next bare heq =>
    rw [heq]
    cases hresolved
    cases isElement with
    | false => exact ⟨"", by decide, rfl⟩
    | true =>
      refine ⟨(scope.get? "").getD "", ?_, rfl⟩
      cases hget : scope.get? "" with
      | none => decide
      | some uri => exact hscope.get? hget
  · next pre bare _ heq =>
    rw [heq]
    obtain ⟨uri, huri, rfl⟩ := Option.map_eq_some_iff.mp hresolved
    exact ⟨uri, hscope.get? huri, rfl⟩

/-- The name of an element has a namespace, and the bare name stays. -/
theorem bareName_resolve? {scope : Fields String} (hscope : IsSoundScope scope) {name : String}
    (h : isName name.toList = true) :
    ∃ tag, resolve? scope true name = some tag ∧ bareName tag = name := by
  refine ⟨clark ((scope.get? "").getD "") name, ?_, ?_⟩
  · rw [resolve?, splitName_of_isName h]
    simp
  · have huri : '\x7d' ∉ ((scope.get? "").getD "").toList := by
      cases hget : scope.get? "" with
      | none => decide
      | some uri => exact hscope.get? hget
    exact bareName_clark huri (isWord_of_isName h)

/-- The bare name of an element is a simple name. -/
theorem isName_bareName_resolve? {scope : Fields String} (hscope : IsSoundScope scope)
    {name tag : String} (h : IsQualifiedName name.toList)
    (htag : resolve? scope true name = some tag) : isName (bareName tag).toList = true := by
  obtain ⟨uri, huri, rfl⟩ := of_resolve? hscope (isWord_of_isQualifiedName h) htag
  have hhalf : isName (splitName name).2.toList = true := by
    rcases splitName_cases h with ⟨hname, hsplit⟩ | ⟨pre, bare, -, hbare, -, hsplit⟩
    · rwa [hsplit]
    · rwa [hsplit]
  rwa [bareName_clark huri (isWord_of_isName hhalf)]

theorem isSoundScope_xml : IsSoundScope [("xml", xmlNamespace)] := by
  intro e he
  rw [List.mem_singleton.mp he]
  decide

end Xml
end TrustFramework
