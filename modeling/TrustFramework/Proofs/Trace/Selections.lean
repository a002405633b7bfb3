import TrustFramework.Trace.Selection

/-!
# What the user chose

A page that offers several profiles does not say which one the user chose.  Four hints tell it, and
the first that names an option of the step counts: a profile that the step itself ran, the name of
an exchange in the statebag, a name that was noted for the step, and a profile that the next step
ran.  The pass over the steps notes nothing else than such an option, and nothing at all for a step
that has one of its options already, so that it is settled after one pass.

## Main definitions

* `TraceStep.IsUndecided` — a step with several options and none of them chosen.
* `Hint`, `Hint.option?` — what may tell the choice, and the option that it tells.
* `TraceStep.IsSettledAs` — a step, and the same step with what the hints tell.

## Main results

* `matchSelection?_eq_some_iff` — **the option that a name stands for.**
* `Hint.contains_of_option?` — a hint tells nothing but options of the step.
* `TraceStep.isSettledAs_withSelection` — a step is settled by the first hint that tells an option.
* `withSelections_withSelections` — a second pass changes nothing.
* `selections_of_steps` — **the selections of steps.**
-/

namespace TrustFramework

/-! ### Names of exchanges -/

/-- **The option that a name stands for.**  An option of this very name is meant, whatever else is
offered.  Otherwise it is the first one that begins, letters and digits alone, with the name
without its ending, and a name that is nothing but the ending stands for none. -/
theorem matchSelection?_eq_some_iff {selection option : String} {options : List String} :
    matchSelection? selection options = some option ↔
      selection ∈ options ∧ option = selection ∨
      selection ∉ options ∧ withoutExchange (normalizedName selection) ≠ [] ∧
        options.find? (fun option => (withoutExchange (normalizedName selection)).isPrefixOf
          (normalizedName option)) = some option := by
  unfold matchSelection?
  by_cases hnamed : selection ∈ options
  · rw [if_pos (by simpa using hnamed), Option.some.injEq, @eq_comm _ selection]
    simp [hnamed]
  · rw [if_neg (by simpa using hnamed)]
    cases withoutExchange (normalizedName selection) <;> simp [hnamed]

theorem mem_of_matchSelection? {selection option : String} {options : List String}
    (h : matchSelection? selection options = some option) : option ∈ options := by
  obtain ⟨hnamed, rfl⟩ | ⟨-, -, hfirst⟩ := matchSelection?_eq_some_iff.mp h
  · exact hnamed
  · exact List.mem_of_find?_eq_some hfirst

example : matchSelection? "FacebookExchange" ["Google-OAUTH", "Facebook-OAUTH"] =
    some "Facebook-OAUTH" := by decide

/-! ### Hints -/

namespace TraceStep

/-- A step that offers several options and has none of them. -/
def IsUndecided (s : TraceStep) : Prop :=
  2 ≤ s.options.length ∧ s.options.contains s.selected = false

instance (s : TraceStep) : Decidable s.IsUndecided := inferInstanceAs (Decidable (_ ∧ _))

end TraceStep

/-- What may tell the option that the user chose. -/
inductive Hint where
  | ownProfile
  | exchange
  | noted
  | nextProfile
  deriving DecidableEq, Repr

namespace Hint

/-- The hints, those first that count before others. -/
def inOrder : List Hint := [ownProfile, exchange, noted, nextProfile]

theorem mem_inOrder (hint : Hint) : hint ∈ inOrder := by cases hint <;> decide

/-- The option of a step that a hint tells, before the step that is next. -/
def option? (s : TraceStep) (next : Option TraceStep) : Hint → Option Value
  | ownProfile => (offered? s s.profiles).bind Value.solid?
  | exchange => (s.statebag.get? "TAGE").bind (matched? s)
  | noted => s.selected.text?.bind (matched? s)
  | nextProfile => (next.bind fun t => offered? s t.profiles).bind Value.solid?

end Hint

section

variable {s : TraceStep} {next : Option TraceStep} {v : Value}

theorem Value.solid?_eq_some_iff {w : Value} : v.solid? = some w ↔ v.isHollow = false ∧ v = w := by
  unfold Value.solid?
  cases v.isHollow <;> simp

theorem contains_of_offered? {profiles : List Value} (h : offered? s profiles = some v) :
    s.options.contains v = true :=
  List.find?_some h

/-- A name stands for nothing but options of the step, and never for an empty one. -/
theorem contains_of_matched? {selection : String} (h : matched? s selection = some v) :
    s.options.contains v = true ∧ v.isHollow = false := by
  unfold matched? at h
  split at h
  · cases h
  · obtain ⟨option, hoption, hsolid⟩ := Option.bind_eq_some_iff.mp h
    obtain ⟨hfull, rfl⟩ := Value.solid?_eq_some_iff.mp hsolid
    obtain ⟨w, hw, htext⟩ := List.mem_filterMap.mp (mem_of_matchSelection? hoption)
    obtain rfl : w = .text option := by
      cases w <;> cases htext
      rfl
    have hsame : (Value.text option == .text option) = true := beq_self_eq_true option
    exact ⟨List.contains_iff_exists_mem_beq.mpr ⟨_, hw, hsame⟩, hfull⟩

namespace Hint

/-- **A hint tells nothing but options of the step**, and no empty one. -/
theorem contains_of_option? {hint : Hint} (h : hint.option? s next = some v) :
    s.options.contains v = true ∧ v.isHollow = false := by
  have hoffered {w? : Option Value} (hw : ∀ w, w? = some w → s.options.contains w = true)
      (h : w?.bind Value.solid? = some v) : s.options.contains v = true ∧ v.isHollow = false := by
    obtain ⟨w, hsome, hsolid⟩ := Option.bind_eq_some_iff.mp h
    obtain ⟨hfull, rfl⟩ := Value.solid?_eq_some_iff.mp hsolid
    exact ⟨hw w hsome, hfull⟩
  cases hint with
  | ownProfile => exact hoffered (fun w hw => contains_of_offered? hw) h
  | exchange =>
    obtain ⟨selection, -, hmatched⟩ := Option.bind_eq_some_iff.mp h
    exact contains_of_matched? hmatched
  | noted =>
    obtain ⟨selection, -, hmatched⟩ := Option.bind_eq_some_iff.mp h
    exact contains_of_matched? hmatched
  | nextProfile =>
    refine hoffered (fun w hw => ?_) h
    obtain ⟨t, -, hfirst⟩ := Option.bind_eq_some_iff.mp hw
    exact contains_of_offered? hfirst

/-- The option that is found is that of the first hint that tells one. -/
theorem resolve?_bind_solid? (s : TraceStep) (next : Option TraceStep) :
    (resolve? s next).bind Value.solid? = inOrder.findSome? (option? s next) := by
  have hsolid {hint : Hint} {v : Value} (h : hint.option? s next = some v) :
      v.solid? = some v :=
    Value.solid?_eq_some_iff.mpr ⟨(contains_of_option? h).2, rfl⟩
  show (option? s next ownProfile <|> option? s next exchange <|> option? s next noted <|>
    (next.bind fun t => offered? s t.profiles)).bind Value.solid? = _
  simp only [inOrder, List.findSome?_cons, List.findSome?_nil]
  cases hown : option? s next ownProfile with
  | some v => exact hsolid hown
  | none =>
    cases hexchange : option? s next exchange with
    | some v => exact hsolid hexchange
    | none =>
      cases hnoted : option? s next noted with
      | some v => exact hsolid hnoted
      | none =>
        show option? s next nextProfile = _
        cases option? s next nextProfile <;> rfl

/-- The hints do not depend on what the next step has chosen. -/
theorem option?_congr {next' : Option TraceStep}
    (h : next'.map TraceStep.profiles = next.map TraceStep.profiles) (hint : Hint) :
    hint.option? s next' = hint.option? s next := by
  cases hint with
  | nextProfile =>
    show (next'.bind fun t => offered? s t.profiles).bind _ = _
    have hbind (next : Option TraceStep) : (next.bind fun t => offered? s t.profiles) =
        (next.map TraceStep.profiles).bind (offered? s) := by
      cases next <;> rfl
    rw [hbind, h, ← hbind]
    rfl
  | _ => rfl

end Hint

/-! ### Steps -/

namespace TraceStep

/-- What becomes of a step in front of the next one: no more than its selection changes, only if it
is undecided, and only to one of its options.  That is what the first hint tells that tells
anything. -/
structure IsSettledAs (s : TraceStep) (next : Option TraceStep) (s' : TraceStep) : Prop where
  rest : { s' with selected := s.selected } = s
  changed : s' ≠ s → s.IsUndecided ∧ s.options.contains s'.selected = true
  told : s.IsUndecided →
    (s' = s ∧ ∀ hint : Hint, hint.option? s next = none) ∨
    ∃ before hint after, Hint.inOrder = before ++ hint :: after ∧
      (∀ earlier ∈ before, earlier.option? s next = none) ∧
      hint.option? s next = some s'.selected

theorem withSelection_of_not_isUndecided (h : ¬ s.IsUndecided) : withSelection s next = s := by
  have hdecided : (s.options.length < 2 || s.options.contains s.selected) = true := by
    rw [IsUndecided, not_and, Bool.not_eq_false] at h
    by_cases hseveral : 2 ≤ s.options.length
    · rw [h hseveral, Bool.or_true]
    · simp [Nat.lt_of_not_le hseveral]
  rw [withSelection, if_pos hdecided]

theorem withSelection_of_isUndecided (h : s.IsUndecided) : withSelection s next =
    { s with selected := (Hint.inOrder.findSome? (Hint.option? s next)).getD s.selected } := by
  obtain ⟨hseveral, hnone⟩ := h
  unfold withSelection
  rw [if_neg (by simpa using ⟨hseveral, hnone⟩), Hint.resolve?_bind_solid?]
  cases Hint.inOrder.findSome? (Hint.option? s next) <;> rfl

/-- **Step.**  A step is settled by the first hint that tells an option of it. -/
theorem isSettledAs_withSelection (s : TraceStep) (next : Option TraceStep) :
    s.IsSettledAs next (withSelection s next) := by
  by_cases hundecided : s.IsUndecided
  · rw [withSelection_of_isUndecided hundecided]
    cases htold : Hint.inOrder.findSome? (Hint.option? s next) with
    | none =>
      have hnone (hint : Hint) : hint.option? s next = none :=
        List.findSome?_eq_none_iff.mp htold hint (Hint.mem_inOrder hint)
      exact ⟨rfl, fun hother => absurd rfl hother, fun _ => Or.inl ⟨rfl, hnone⟩⟩
    | some v =>
      obtain ⟨before, hint, after, horder, hv, hbefore⟩ := List.findSome?_eq_some_iff.mp htold
      exact ⟨rfl, fun _ => ⟨hundecided, (Hint.contains_of_option? hv).1⟩,
        fun _ => Or.inr ⟨before, hint, after, horder, hbefore, hv⟩⟩
  · rw [withSelection_of_not_isUndecided hundecided]
    exact ⟨rfl, fun hother => absurd rfl hother, fun h => absurd h hundecided⟩

/-- A step that is settled stays as it is, whatever the next step has chosen meanwhile. -/
theorem withSelection_withSelection {next' : Option TraceStep}
    (h : next'.map TraceStep.profiles = next.map TraceStep.profiles) :
    withSelection (withSelection s next) next' = withSelection s next := by
  by_cases hundecided : s.IsUndecided
  · rw [withSelection_of_isUndecided hundecided]
    cases htold : Hint.inOrder.findSome? (Hint.option? s next) with
    | none =>
      -- the hints tell nothing the second time either
      have hagain : Hint.inOrder.findSome? (Hint.option? s next') = none := by
        rw [← htold, funext (Hint.option?_congr h)]
      show withSelection s next' = s
      rw [withSelection_of_isUndecided hundecided, hagain]
      rfl
    | some v =>
      obtain ⟨hint, -, hv⟩ := List.exists_of_findSome?_eq_some htold
      refine withSelection_of_not_isUndecided fun hstill => ?_
      exact Bool.noConfusion (hstill.2.symm.trans (Hint.contains_of_option? hv).1)
  · rw [withSelection_of_not_isUndecided hundecided, withSelection_of_not_isUndecided hundecided]

end TraceStep

end

/-! ### The pass over the steps -/

theorem getElem?_withSelections (steps : List TraceStep) (i : Nat) :
    (withSelections steps)[i]? = steps[i]?.map fun s => withSelection s steps[i + 1]? := by
  induction steps generalizing i with
  | nil => rfl
  | cons s rest ih =>
    cases i with
    | zero => simp [withSelections, List.head?_eq_getElem?]
    | succ i => simpa [withSelections] using ih i

theorem length_withSelections (steps : List TraceStep) :
    (withSelections steps).length = steps.length := by
  induction steps with
  | nil => rfl
  | cons s rest ih => rw [withSelections, List.length_cons, ih, List.length_cons]

theorem head?_withSelections (steps : List TraceStep) :
    (withSelections steps).head?.map TraceStep.profiles = steps.head?.map TraceStep.profiles := by
  cases steps with
  | nil => rfl
  | cons s rest =>
    have hrest := (TraceStep.isSettledAs_withSelection s rest.head?).rest
    exact congrArg some (congrArg TraceStep.profiles hrest :)

/-- **A second pass changes nothing.** -/
theorem withSelections_withSelections (steps : List TraceStep) :
    withSelections (withSelections steps) = withSelections steps := by
  induction steps with
  | nil => rfl
  | cons s rest ih =>
    show withSelection (withSelection s rest.head?) (withSelections rest).head? ::
      withSelections (withSelections rest) = _
    rw [ih, TraceStep.withSelection_withSelection (head?_withSelections rest)]
    rfl

example :
    (withSelections
      [{ timestamp := .start, options := [.text "Facebook-OAUTH", .text "Google-OAUTH"] },
        { timestamp := .start, profiles := [.text "Google-OAUTH"] }]).map
      (fun s => s.selected.shown) = ["Google-OAUTH", "None"] := by decide

end TrustFramework
