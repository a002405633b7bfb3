import TrustFramework.Graph.Journey
import TrustFramework.Proofs.Naming

/-!
# Identifiers of edges

An edge is identified by a text of its ends and its handle, with signs between them.  If the ends
have none of these signs, the text tells where the edge starts and by which handle, so that two
edges with different starts are never taken for the same.

## Main definitions

* `IsPlain` — texts without these signs.
* `Graph.IsExit` — where an edge may start.

## Main results

* `arrow_inj` — what stands before the first arrow is told by a text.
* `IsPlain.append` — a plain text stays plain with an ordinary ending.
* `Graph.link_id_inj` — **the identifier of an edge tells where it starts.**
-/

namespace TrustFramework

/-- A text without the signs that stand between the parts of the identifier of an edge. -/
structure IsPlain (s : String) : Prop where
  colon : ':' ∉ s.toList
  arrow : ¬ ['-', '>'] <:+: s.toList

/-- A text with none of the characters of these signs but dashes. -/
structure IsOrdinary (s : String) : Prop where
  colon : ':' ∉ s.toList
  tip : '>' ∉ s.toList

/-! ### Arrows -/

/-- An arrow in two texts is in the first if the second has no tip of one. -/
theorem not_arrow_append {cs ending : List Char} (h : ¬ ['-', '>'] <:+: cs)
    (hending : '>' ∉ ending) : ¬ ['-', '>'] <:+: cs ++ ending := by
  rintro ⟨before, after, heq⟩
  obtain ⟨mid, hcs, -⟩ | ⟨mid, hbefore, hmid⟩ := List.append_eq_append_iff.mp heq
  · exact h ⟨before, mid, hcs.symm⟩
  · rcases List.eq_nil_or_concat mid with rfl | ⟨mid, c, rfl⟩
    · exact h ⟨before, [], by simpa using hbefore⟩
    · -- the tip is the last of what the second text has of it
      have hlast := congrArg List.getLast? hbefore
      obtain rfl : '>' = c := by simpa using hlast
      exact hending (by simp [hmid])

/-- What stands before the first arrow is told by a text. -/
theorem arrow_inj {before before' after after' : List Char} (h : ¬ ['-', '>'] <:+: before)
    (h' : ¬ ['-', '>'] <:+: before')
    (heq : before ++ '-' :: '>' :: after = before' ++ '-' :: '>' :: after') :
    before = before' ∧ after = after' := by
  -- a longer text before the arrow would have the arrow in it
  have hshort {xs ys ws zs : List Char} (hys : ¬ ['-', '>'] <:+: ys)
      (h : xs ++ '-' :: '>' :: ws = ys ++ '-' :: '>' :: zs) {mid : List Char}
      (hmid : ys = xs ++ mid) : mid = [] := by
    subst hmid
    rw [List.append_assoc, List.append_cancel_left_eq] at h
    match mid, h with
    | [], _ => rfl
    | [c], h => simp at h
    | c :: c' :: mid, h =>
      simp only [List.cons_append, List.cons.injEq] at h
      obtain ⟨rfl, rfl, -⟩ := h
      exact absurd ⟨xs, mid, by simp⟩ hys
  obtain ⟨mid, hbefore, -⟩ | ⟨mid, hbefore, -⟩ := List.append_eq_append_iff.mp heq
  · obtain rfl := hshort h' heq hbefore
    obtain rfl : before' = before := by simpa using hbefore
    simpa using heq
  · obtain rfl := hshort h heq.symm hbefore
    obtain rfl : before = before' := by simpa using hbefore
    simpa using heq

/-- **A plain text stays plain with an ordinary ending.** -/
theorem IsPlain.append {s ending : String} (h : IsPlain s) (hending : IsOrdinary ending) :
    IsPlain (s ++ ending) where
  colon := by
    rw [String.toList_append, List.mem_append]
    exact not_or.mpr ⟨h.colon, hending.colon⟩
  arrow := by
    rw [String.toList_append]
    exact not_arrow_append h.arrow hending.tip

theorem IsOrdinary.isPlain {s : String} (h : IsOrdinary s) : IsPlain s where
  colon := h.colon
  arrow := fun harrow => h.tip (harrow.subset (by simp))

theorem IsOrdinary.append {s ending : String} (h : IsOrdinary s) (hending : IsOrdinary ending) :
    IsOrdinary (s ++ ending) where
  colon := by
    rw [String.toList_append, List.mem_append]
    exact not_or.mpr ⟨h.colon, hending.colon⟩
  tip := by
    rw [String.toList_append, List.mem_append]
    exact not_or.mpr ⟨h.tip, hending.tip⟩

theorem isOrdinary_toString (n : Nat) : IsOrdinary (toString n) where
  colon := fun h => absurd (isDigit_of_mem_toString h) (by decide)
  tip := fun h => absurd (isDigit_of_mem_toString h) (by decide)

theorem isOrdinary_toString_int (k : Int) : IsOrdinary (toString k) := by
  cases k with
  | ofNat n => exact isOrdinary_toString n
  | negSucc n => exact IsOrdinary.append (s := "-") ⟨by decide, by decide⟩ (isOrdinary_toString _)

/-! ### Links -/

namespace Graph

/-- Where an edge may start: at a node of a plain name, by no handle or by one with an ordinary
name. -/
structure IsExit (exit : String × Option String) : Prop where
  source : IsPlain exit.1
  handle : ∀ handle ∈ exit.2, IsOrdinary handle

/-- The start of an edge in its identifier. -/
def exitText (exit : String × Option String) : List Char :=
  exit.1.toList ++ exit.2.elim [] fun handle => ':' :: handle.toList

theorem toList_id_link (source target : String) (handle : Option String) :
    (link source target handle).id.toList =
      exitText (source, handle) ++ '-' :: '>' :: target.toList := by
  cases handle <;> simp [link, exitText]

theorem IsExit.not_arrow {exit : String × Option String} (h : IsExit exit) :
    ¬ ['-', '>'] <:+: exitText exit := by
  refine not_arrow_append h.source.arrow ?_
  cases hhandle : exit.2 with
  | none => exact List.not_mem_nil
  | some handle => simpa using (h.handle handle hhandle).tip

theorem exitText_inj {exit exit' : String × Option String} (h : IsExit exit) (h' : IsExit exit')
    (heq : exitText exit = exitText exit') : exit = exit' := by
  obtain ⟨source, handle⟩ := exit
  obtain ⟨source', handle'⟩ := exit'
  cases handle with
  | none =>
    cases handle' with
    | none =>
      obtain rfl : source = source' := String.toList_inj.mp (by simpa [exitText] using heq)
      rfl
    | some handle' =>
      have hsource : source.toList = source'.toList ++ ':' :: handle'.toList := by
        simpa [exitText] using heq
      exact absurd (by simp [hsource]) h.source.colon
  | some handle =>
    cases handle' with
    | none =>
      have hsource : source'.toList = source.toList ++ ':' :: handle.toList := by
        simpa [exitText] using heq.symm
      exact absurd (by simp [hsource]) h'.source.colon
    | some handle' =>
      obtain ⟨hsource, hhandle⟩ := append_cons_inj (h.handle handle rfl).colon
        (h'.handle handle' rfl).colon heq
      obtain rfl : source = source' := String.toList_inj.mp hsource
      obtain rfl := String.toList_inj.mp hhandle
      rfl

/-- **The identifier of an edge tells where it starts.** -/
theorem link_id_inj {source source' target target' : String} {handle handle' : Option String}
    (h : IsExit (source, handle)) (h' : IsExit (source', handle'))
    (heq : (link source target handle).id = (link source' target' handle').id) :
    (source, handle) = (source', handle') := by
  have hlists := congrArg String.toList heq
  rw [toList_id_link, toList_id_link] at hlists
  exact exitText_inj h h' (arrow_inj h.not_arrow h'.not_arrow hlists).1

end Graph

end TrustFramework
