import TrustFramework.Proofs.Trace.Selections

/-!
# Namesakes of an exchange

The name of one provider can be the beginning of another one's.  The exchange of the first should
stand for the option of exactly its name, if there is one, and only else for one that goes on
behind it.  But options are gone through once, from the front, and the first that begins with the
name is taken: an option of exactly this name is missed if one that goes on stands in front of it.

## Main definitions

* `exchangeName` — the name that a selection asks for.
* `IsNamesake`, `GoesOn` — options of exactly a name, and those that only begin with it.
* `IsObscured` — an option that goes on stands in front of all namesakes.

## Main results

* `isObscured_of_found`, `IsObscured.not_isNamesake` — what is found is a namesake, or obscures
  all of them.
* `namesake_found_iff` — **a namesake is found exactly if it is not obscured.**
* `namesake_missed` — a provider whose name is the beginning of another one's, which is not found.
-/

namespace TrustFramework

/-- The name that a selection asks for: its letters and digits without the ending of exchanges. -/
def exchangeName (selection : String) : List Char := withoutExchange (normalizedName selection)

/-- An option has exactly a name, letters and digits alone. -/
def IsNamesake (name : List Char) (option : String) : Prop := normalizedName option = name

instance (name : List Char) (option : String) : Decidable (IsNamesake name option) :=
  inferInstanceAs (Decidable (_ = _))

/-- An option begins with a name and goes on behind it. -/
def GoesOn (name : List Char) (option : String) : Prop :=
  name <+: normalizedName option ∧ ¬ IsNamesake name option

instance (name : List Char) (option : String) : Decidable (GoesOn name option) :=
  inferInstanceAs (Decidable (_ ∧ _))

/-- An option that only begins with a name stands in front of all namesakes. -/
def IsObscured (name : List Char) (options : List String) : Prop :=
  ∃ before longer after, options = before ++ longer :: after ∧ GoesOn name longer ∧
    (∀ option ∈ before, ¬ IsNamesake name option) ∧ ∃ option ∈ after, IsNamesake name option

section

variable {name : List Char} {selection option : String} {options : List String}

theorem IsNamesake.begins (h : IsNamesake name option) : name <+: normalizedName option :=
  h ▸ List.prefix_refl _

/-- A selection that is no option is looked for by its name. -/
theorem matchSelection?_eq_find? (hother : selection ∉ options)
    (hname : exchangeName selection ≠ []) : matchSelection? selection options =
      options.find? fun option => (exchangeName selection).isPrefixOf (normalizedName option) := by
  refine Option.ext fun option => ?_
  rw [matchSelection?_eq_some_iff]
  exact ⟨fun h => (h.resolve_left fun hnamed => hother hnamed.1).2.2,
    fun h => Or.inr ⟨hother, hname, h⟩⟩

/-- What is found is a namesake, or goes on and stands in front of all of them. -/
theorem isObscured_of_found
    (h : (options.find? fun option => name.isPrefixOf (normalizedName option)) = some option)
    (hother : ¬ IsNamesake name option) (hnamesake : ∃ o ∈ options, IsNamesake name o) :
    IsObscured name options := by
  obtain ⟨hbegins, before, after, rfl, hbefore⟩ := List.find?_eq_some_iff_append.mp h
  have hnone : ∀ o ∈ before, ¬ IsNamesake name o := by
    intro o ho hsame
    have hskipped := hbefore o ho
    rw [List.isPrefixOf_iff_prefix.mpr hsame.begins] at hskipped
    cases hskipped
  refine ⟨before, option, after, rfl, ⟨List.isPrefixOf_iff_prefix.mp hbegins, hother⟩, hnone, ?_⟩
  obtain ⟨o, ho, hsame⟩ := hnamesake
  rcases List.mem_append.mp ho with ho | ho
  · exact absurd hsame (hnone o ho)
  rcases List.mem_cons.mp ho with rfl | ho
  · exact absurd hsame hother
  · exact ⟨o, ho, hsame⟩

/-- An obscured name is not found: the search ends in front of it. -/
theorem IsObscured.not_isNamesake (h : IsObscured name options)
    (hfound : (options.find? fun option => name.isPrefixOf (normalizedName option)) =
      some option) : ¬ IsNamesake name option := by
  obtain ⟨before, longer, after, rfl, ⟨hbegins, hother⟩, hbefore, -⟩ := h
  have hstop : ((longer :: after).find? fun option => name.isPrefixOf (normalizedName option)) =
      some longer := List.find?_cons_of_pos (List.isPrefixOf_iff_prefix.mpr hbegins)
  rw [List.find?_append, hstop] at hfound
  cases hfront : before.find? fun option => name.isPrefixOf (normalizedName option) with
  | some found =>
    rw [hfront, Option.some_or] at hfound
    cases hfound
    exact hbefore option (List.mem_of_find?_eq_some hfront)
  | none =>
    rw [hfront, Option.none_or] at hfound
    cases hfound
    exact hother

/-- **A namesake is found exactly if it is not obscured.**  A selection that is one of the options
stands for itself, wherever it is.  Any other one whose name some options have exactly stands for
such an option exactly if none that only begins with the name is in front of them all. -/
theorem namesake_found_iff (selection : String) (options : List String) :
    (selection ∈ options → matchSelection? selection options = some selection) ∧
    (selection ∉ options → exchangeName selection ≠ [] →
      (∃ option ∈ options, IsNamesake (exchangeName selection) option) →
        ((∃ option ∈ options, matchSelection? selection options = some option ∧
            IsNamesake (exchangeName selection) option) ↔
          ¬ IsObscured (exchangeName selection) options)) := by
  refine ⟨fun hnamed => matchSelection?_eq_some_iff.mpr (Or.inl ⟨hnamed, rfl⟩),
    fun hother hname hnamesake => ?_⟩
  rw [matchSelection?_eq_find? hother hname]
  constructor
  · rintro ⟨option, -, hfound, hsame⟩ hobscured
    exact hobscured.not_isNamesake hfound hsame
  · intro hclear
    obtain ⟨namesake, hmem, hsame⟩ := hnamesake
    cases hfound : options.find? fun option =>
        (exchangeName selection).isPrefixOf (normalizedName option) with
    | none =>
      have hpassed := List.find?_eq_none.mp hfound namesake hmem
      exact absurd (List.isPrefixOf_iff_prefix.mpr hsame.begins) hpassed
    | some option =>
      refine ⟨option, List.mem_of_find?_eq_some hfound, rfl, Decidable.byContradiction ?_⟩
      exact fun hother => hclear (isObscured_of_found hfound hother ⟨namesake, hmem, hsame⟩)

end

/-- A provider in front of one whose name goes on is found. -/
theorem namesake_found_first :
    ("GoogleExchange" ∉ ["Google", "GoogleApps-OAUTH"] ∧ exchangeName "GoogleExchange" ≠ [] ∧
      ∃ option ∈ ["Google", "GoogleApps-OAUTH"],
        IsNamesake (exchangeName "GoogleExchange") option) ∧
    ∃ option ∈ ["Google", "GoogleApps-OAUTH"],
      matchSelection? "GoogleExchange" ["Google", "GoogleApps-OAUTH"] = some option ∧
        IsNamesake (exchangeName "GoogleExchange") option := by
  have hgiven : "GoogleExchange" ∉ ["Google", "GoogleApps-OAUTH"] ∧
      exchangeName "GoogleExchange" ≠ [] ∧ ∃ option ∈ ["Google", "GoogleApps-OAUTH"],
        IsNamesake (exchangeName "GoogleExchange") option := by decide
  refine ⟨hgiven, ((namesake_found_iff _ _).2 hgiven.1 hgiven.2.1 hgiven.2.2).mpr ?_⟩
  rintro ⟨before, longer, after, heq, hlonger, hbefore, -⟩
  cases before with
  | nil =>
    obtain ⟨rfl, -⟩ := List.cons.inj heq
    exact absurd hlonger (by decide)
  | cons first before =>
    obtain ⟨rfl, -⟩ := List.cons.inj heq
    exact hbefore _ List.mem_cons_self (by decide)

/-- **A provider whose name is the beginning of another one's is missed** behind that one. -/
theorem namesake_missed :
    matchSelection? "GoogleExchange" ["GoogleApps-OAUTH", "Google"] = some "GoogleApps-OAUTH" ∧
    ¬ ∀ (selection : String) (options : List String), selection ∉ options →
      exchangeName selection ≠ [] →
      (∃ option ∈ options, IsNamesake (exchangeName selection) option) →
      ∃ option ∈ options, matchSelection? selection options = some option ∧
        IsNamesake (exchangeName selection) option := by
  have hfound : matchSelection? "GoogleExchange" ["GoogleApps-OAUTH", "Google"] =
      some "GoogleApps-OAUTH" := by decide
  refine ⟨hfound, fun h => ?_⟩
  obtain ⟨option, -, hoption, hsame⟩ := h "GoogleExchange" ["GoogleApps-OAUTH", "Google"]
    (by decide) (by decide) (by decide)
  rw [hfound] at hoption
  cases hoption
  exact absurd hsame (by decide)

end TrustFramework
