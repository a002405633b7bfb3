import Mathlib.Data.List.Basic
import TrustFramework.Entity.Extraction

/-!
# Looking versions up

What looking up a name in fields, and the versions of a thing in a collection, can
give; and what is known about the highest of some versions.

## Main definitions

* `Collection.IsKeyed` — every version stands under its own identifier.

## Main results

* `Fields.mem_of_get?`, `Fields.get?_eq_none_iff` — names and their values.
* `highest?_eq_none_iff`, `mem_of_highest?` — the highest of some versions.
* `Collection.IsKeyed.add`, `Collection.IsKeyed.recordAll` — collections stay keyed when
  versions are added.
-/

namespace TrustFramework

namespace Fields

variable {α : Type}

theorem mem_of_get? {fields : Fields α} {name : String} {value : α}
    (h : fields.get? name = some value) : (name, value) ∈ fields := by
  induction fields with
  | nil => simp at h
  | cons entry rest ih =>
    obtain ⟨n, v⟩ := entry
    by_cases hn : n = name
    · subst hn
      simp only [get?, if_true, Option.some.injEq] at h
      simp [h]
    · simp only [get?, if_neg hn] at h
      exact List.mem_cons_of_mem _ (ih h)

theorem get?_of_mem {fields : Fields α} (h : fields.names.Nodup) {name : String} {v : α}
    (hmem : (name, v) ∈ fields) : fields.get? name = some v := by
  induction fields with
  | nil => cases hmem
  | cons e fields ih =>
    obtain ⟨n, w⟩ := e
    obtain ⟨hn, hrest⟩ := List.nodup_cons.mp h
    rw [get?]
    rcases List.mem_cons.mp hmem with heq | hmem
    · cases heq
      rw [if_pos rfl]
    · have hne : n ≠ name := by
        rintro rfl
        exact hn (List.mem_map.mpr ⟨_, hmem, rfl⟩)
      rw [if_neg hne, ih hrest hmem]

/-- Setting a name to the value that it has changes nothing. -/
theorem set_eq_self {fields : Fields α} {name : String} {value : α}
    (h : fields.get? name = some value) : fields.set name value = fields := by
  induction fields with
  | nil => cases h
  | cons entry rest ih =>
    rw [get?] at h
    rw [set]
    split at h
    · next hn => rw [if_pos hn, ← Option.some.inj h]
    · next hn => rw [if_neg hn, ih h]

theorem get?_eq_none_iff {fields : Fields α} {name : String} :
    fields.get? name = none ↔ name ∉ fields.names := by
  induction fields with
  | nil => simp [names]
  | cons entry rest ih =>
    obtain ⟨n, v⟩ := entry
    by_cases hn : n = name
    · simp [get?, names, hn]
    · simp only [get?, if_neg hn, ih, names, List.map_cons, List.mem_cons, not_or]
      exact ⟨fun h => ⟨Ne.symm hn, h⟩, And.right⟩

theorem get?_append (fields more : Fields α) (name : String) :
    (fields ++ more).get? name = (fields.get? name <|> more.get? name) := by
  induction fields with
  | nil => rfl
  | cons entry rest ih =>
    obtain ⟨n, v⟩ := entry
    by_cases hn : n = name
    · simp [get?, hn]
    · rw [List.cons_append, get?, if_neg hn, get?, if_neg hn, ih]

theorem mem_values_of_get? {fields : Fields α} {name : String} {value : α}
    (h : fields.get? name = some value) : value ∈ fields.values :=
  List.mem_map.mpr ⟨(name, value), mem_of_get? h, rfl⟩

/-- Setting a name changes no entry but that of the name. -/
theorem mem_set {fields : Fields α} {name : String} {value : α} {entry : String × α}
    (h : entry ∈ fields.set name value) : entry ∈ fields ∨ entry = (name, value) := by
  induction fields with
  | nil => exact Or.inr (by simpa [set] using h)
  | cons first rest ih =>
    obtain ⟨n, v⟩ := first
    by_cases hn : n = name
    · subst hn
      simp only [set, if_true, List.mem_cons] at h
      rcases h with h | h
      · exact Or.inr h
      · exact Or.inl (List.mem_cons_of_mem _ h)
    · simp only [set, if_neg hn, List.mem_cons] at h
      rcases h with h | h
      · exact Or.inl (by simp [h])
      · rcases ih h with h | h
        · exact Or.inl (List.mem_cons_of_mem _ h)
        · exact Or.inr h

end Fields

/-! ### The highest version -/

variable {α : Type}

@[simp] theorem highest?_nil : highest? ([] : List (Version α)) = none := rfl

@[simp] theorem highest?_eq_none_iff {versions : List (Version α)} :
    highest? versions = none ↔ versions = [] := by
  cases versions with
  | nil => simp
  | cons v rest => cases h : highest? rest <;> simp [highest?, h]

theorem highest?_isSome_iff {versions : List (Version α)} :
    (highest? versions).isSome ↔ versions ≠ [] := by
  rw [Option.isSome_iff_ne_none, ne_eq, highest?_eq_none_iff]

theorem mem_of_highest? {versions : List (Version α)} {v : Version α}
    (h : highest? versions = some v) : v ∈ versions := by
  induction versions generalizing v with
  | nil => simp at h
  | cons first rest ih =>
    cases hr : highest? rest with
    | none => simp_all [highest?]
    | some w =>
      simp only [highest?, hr, Option.some.injEq] at h
      split at h
      · exact h ▸ List.mem_cons_of_mem _ (ih hr)
      · exact h ▸ List.mem_cons_self

/-! ### Collections -/

namespace Collection

/-- Every version of a collection stands under its own identifier. -/
def IsKeyed (c : Collection α) : Prop := ∀ entry ∈ c, ∀ v ∈ entry.2, v.id = entry.1

theorem isKeyed_nil : IsKeyed ([] : Collection α) := by
  intro entry h
  simp at h

theorem IsKeyed.id_eq {c : Collection α} (hc : c.IsKeyed) {id : String} {v : Version α}
    (h : v ∈ c.versions id) : v.id = id := by
  unfold versions at h
  cases hget : c.get? id with
  | none => simp [hget] at h
  | some versions =>
    rw [hget, Option.getD_some] at h
    exact hc _ (Fields.mem_of_get? hget) v h

/-- A collection stays keyed when a version is added. -/
theorem IsKeyed.add {c : Collection α} (hc : c.IsKeyed) (v : Version α) :
    (c.add v).IsKeyed := by
  intro entry hentry w hw
  rcases Fields.mem_set hentry with h | rfl
  · exact hc entry h w hw
  · rcases List.mem_append.mp hw with h | h
    · exact hc.id_eq h
    · rw [List.mem_singleton.mp h]

/-- And when all that is found in a file is. -/
theorem IsKeyed.recordAll [Definition α] {c : Collection α} (hc : c.IsKeyed) (source : Source)
    (found : List (Found α)) : (c.recordAll source found).IsKeyed := by
  rw [Collection.recordAll]
  induction found generalizing c with
  | nil => exact hc
  | cons f found ih => exact ih (hc.add _)

theorem mem_versions_of_mem_originals {c : Collection α} {id : String} {v : Version α}
    (h : v ∈ c.originals id) : v ∈ c.versions id := (List.mem_filter.mp h).1

/-- A thing with a version has an entry. -/
theorem mem_names_of_mem_versions {c : Collection α} {id : String} {v : Version α}
    (h : v ∈ c.versions id) : id ∈ c.names := by
  by_contra hid
  simp [versions, Fields.get?_eq_none_iff.mpr hid] at h

/-- The versions of a thing are among all versions. -/
theorem mem_values_of_mem_versions {c : Collection α} {id : String} {v : Version α}
    (h : v ∈ c.versions id) : v ∈ c.values.flatten := by
  unfold versions at h
  cases hget : c.get? id with
  | none => simp [hget] at h
  | some versions =>
    rw [hget, Option.getD_some] at h
    exact List.mem_flatten.mpr ⟨versions, Fields.mem_values_of_get? hget, h⟩

theorem mem_versions_of_effective? {c : Collection α} {id : String} {v : Version α}
    (h : c.effective? id = some v) : v ∈ c.versions id := by
  unfold effective? at h
  cases hfind : (c.versions id).find? Version.isConsolidated with
  | none =>
    rw [hfind] at h
    exact mem_of_highest? h
  | some w =>
    rw [hfind] at h
    cases h
    exact List.mem_of_find?_eq_some hfind

/-- A thing with a version has one that counts. -/
theorem effective?_isSome {c : Collection α} {id : String} {v : Version α}
    (h : v ∈ c.versions id) : (c.effective? id).isSome := by
  unfold effective?
  cases (c.versions id).find? Version.isConsolidated with
  | none =>
    -- no version is consolidated, so that the highest one counts
    refine highest?_isSome_iff.mpr ?_
    intro hnil
    simp [hnil] at h
  | some w => rfl

end Collection
end TrustFramework
