/-!
# Fields: texts paired with values, in the order they were first named

Fields keep one value for each name. Setting a name that is there replaces its
value where it stands; a new name goes to the end.

* `Fields.get?`, `Fields.has` — looking a name up.
* `Fields.set`, `Fields.erase`, `Fields.update` — changing fields.
* `Fields.ofPairs` — the fields a list of pairs describes, the last value of a
  name at the place of its first.
* `get?_cons`, `has_cons`, `set_cons` — one field at a time.
* `get?_set_self`, `get?_set_of_ne`, `names_set` — what setting does.
-/

namespace TrustFramework

/-- Named values in order. -/
abbrev Fields (α : Type) := List (String × α)

namespace Fields

variable {α β : Type}

/-- The value of a name. -/
def get? : Fields α → String → Option α
  | [], _ => none
  | (n, v) :: rest, name => if n = name then some v else get? rest name

/-- Whether a name has a value. -/
def has : Fields α → String → Bool
  | [], _ => false
  | (n, _) :: rest, name => n = name || has rest name

/-- The fields with `name` bound to `value`: in its place, or at the end. -/
def set : Fields α → String → α → Fields α
  | [], name, value => [(name, value)]
  | (n, v) :: rest, name, value =>
    if n = name then (n, value) :: rest else (n, v) :: set rest name value

/-- The fields without `name`. -/
def erase (fields : Fields α) (name : String) : Fields α :=
  fields.filter fun entry => entry.1 ≠ name

/-- The fields with every field of `news` set, in order. -/
def update (fields news : Fields α) : Fields α :=
  news.foldl (fun acc entry => acc.set entry.1 entry.2) fields

/-- The fields a list of pairs describes. -/
def ofPairs (pairs : List (String × α)) : Fields α := update [] pairs

/-- The names in order. -/
def names (fields : Fields α) : List String := fields.map Prod.fst

/-- The values in order. -/
def values (fields : Fields α) : List α := fields.map Prod.snd

/-- The same names with other values. -/
def mapValues (f : α → β) (fields : Fields α) : Fields β :=
  fields.map fun entry => (entry.1, f entry.2)

/-- The value of a name changed by `f`, or `f none` for a new name. -/
def alter (fields : Fields α) (name : String) (f : Option α → α) : Fields α :=
  fields.set name (f (fields.get? name))

/-! ### One field at a time -/

@[simp] theorem get?_nil (name : String) : get? ([] : Fields α) name = none := rfl

theorem get?_cons (n : String) (v : α) (rest : Fields α) (name : String) :
    get? ((n, v) :: rest) name = if n = name then some v else get? rest name := rfl

theorem has_cons (n : String) (v : α) (rest : Fields α) (name : String) :
    has ((n, v) :: rest) name = (n = name || has rest name) := rfl

theorem set_nil (name : String) (value : α) : set [] name value = [(name, value)] := rfl

theorem set_cons (n : String) (v : α) (rest : Fields α) (name : String) (value : α) :
    set ((n, v) :: rest) name value =
      if n = name then (n, value) :: rest else (n, v) :: set rest name value := rfl

/-! ### What setting does -/

theorem has_eq_isSome (fields : Fields α) (name : String) :
    fields.has name = (fields.get? name).isSome := by
  induction fields with
  | nil => rfl
  | cons entry rest ih =>
    obtain ⟨n, v⟩ := entry
    by_cases h : n = name <;> simp [has_cons, get?_cons, h, ih]

@[simp] theorem get?_set_self (fields : Fields α) (name : String) (value : α) :
    (fields.set name value).get? name = some value := by
  induction fields with
  | nil => simp [set_nil, get?_cons]
  | cons entry rest ih =>
    obtain ⟨n, v⟩ := entry
    by_cases h : n = name <;> simp [set_cons, get?_cons, h, ih]

theorem get?_set_of_ne (fields : Fields α) {name other : String} (value : α)
    (h : other ≠ name) : (fields.set name value).get? other = fields.get? other := by
  induction fields with
  | nil => simp [set_nil, get?_cons, Ne.symm h]
  | cons entry rest ih =>
    obtain ⟨n, v⟩ := entry
    by_cases hn : n = name
    · subst hn
      simp [set_cons, get?_cons, Ne.symm h]
    · by_cases ho : n = other
      · subst ho
        simp [set_cons, get?_cons, hn]
      · simp [set_cons, get?_cons, hn, ho, ih]

/-- Setting keeps the names and adds a new one at the end. -/
theorem names_set (fields : Fields α) (name : String) (value : α) :
    (fields.set name value).names =
      if fields.has name then fields.names else fields.names ++ [name] := by
  induction fields with
  | nil => rfl
  | cons entry rest ih =>
    obtain ⟨n, v⟩ := entry
    by_cases h : n = name
    · simp [set_cons, names, has_cons, h]
    · simp only [names] at ih
      by_cases hr : has rest name <;> simp [set_cons, names, has_cons, h, hr, ih]

end Fields
end TrustFramework
