import Mathlib.Data.List.Basic

/-!
# Names put together from parts

A name with a number behind it tells the number and what stands before it, whatever that is: the
digits behind the last dash are the number.

## Main results

* `numbered_inj` — **names with numbers are the same only if their parts are.**
-/

namespace TrustFramework

/-- What a list is behind the last occurrence of an item, and what it is before that, are told by
the list. -/
theorem append_cons_inj {α : Type} {x : α} {before before' after after' : List α}
    (hafter : x ∉ after) (hafter' : x ∉ after')
    (h : before ++ x :: after = before' ++ x :: after') : before = before' ∧ after = after' := by
  obtain ⟨mid, hbefore, hmid⟩ | ⟨mid, hbefore, hmid⟩ := List.append_eq_append_iff.mp h
  · cases mid with
    | nil => exact ⟨by simpa using hbefore.symm, (List.cons.inj hmid).2⟩
    | cons y mid =>
      obtain ⟨-, rfl⟩ := List.cons.inj hmid
      exact absurd (by simp) hafter
  · cases mid with
    | nil => exact ⟨by simpa using hbefore, (List.cons.inj hmid).2.symm⟩
    | cons y mid =>
      obtain ⟨-, rfl⟩ := List.cons.inj hmid
      exact absurd (by simp) hafter'

/-- A number is written with digits. -/
theorem isDigit_of_mem_toString {n : Nat} {c : Char} (h : c ∈ (toString n).toList) :
    c.isDigit = true := by
  rw [Nat.toString_eq_repr, Nat.toList_repr] at h
  exact Nat.isDigit_of_mem_toDigits (by decide) (by decide) h

theorem dash_not_mem_toString (n : Nat) : '-' ∉ (toString n).toList := by
  intro h
  exact absurd (isDigit_of_mem_toString h) (by decide)

theorem toString_inj {m n : Nat} (h : toString m = toString n) : m = n := by
  have hdigits := congrArg (fun s => Nat.ofDigitChars 10 s.toList 0) h
  simpa [Nat.toString_eq_repr, Nat.toList_repr] using hdigits

/-- **Names with numbers are the same only if their parts are.** -/
theorem numbered_inj {a b : String} {m n : Nat} :
    a ++ "-" ++ toString m = b ++ "-" ++ toString n ↔ a = b ∧ m = n := by
  constructor
  · intro h
    have hlists : a.toList ++ '-' :: (toString m).toList =
        b.toList ++ '-' :: (toString n).toList := by
      simpa using congrArg String.toList h
    obtain ⟨hname, hnumber⟩ :=
      append_cons_inj (dash_not_mem_toString m) (dash_not_mem_toString n) hlists
    exact ⟨String.toList_inj.mp hname, toString_inj (String.toList_inj.mp hnumber)⟩
  · rintro ⟨rfl, rfl⟩
    rfl

end TrustFramework
