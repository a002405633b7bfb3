import Mathlib.Data.List.Nodup
import TrustFramework.Policy.Node
import TrustFramework.Proofs.Entity.Collection
import TrustFramework.Proofs.Value

/-!
# Trees whose objects name each field once

Fields are named values in order, and nothing in their type keeps a name from coming twice.  In
the tree of a document no name does: attributes and children are set among fields one after the
other, and putting a tree into normal form leaves the names alone.

## Main definitions

* `Value.namesOnce` — every object of a value names each of its fields once.

## Main results

* `Policy.Tree.normalize_list`, `Policy.Tree.normalize_object` — normal form, item by item and field
  by field.
* `Policy.Tree.namesOnce_of_parse` — **the tree of a document names each field once.**
* `Policy.Node.namesOnce_of_mem_children` — and so do the elements below a path.
-/

namespace TrustFramework

namespace Value

mutual
/-- Whether every object of a value names each of its fields once. -/
def namesOnce : Value → Bool
  | list items => itemsNameOnce items
  | object fields => decide (Fields.names fields).Nodup && fieldsNameOnce fields
  | _ => true

/-- Whether the objects of all items do. -/
def itemsNameOnce : List Value → Bool
  | [] => true
  | v :: rest => namesOnce v && itemsNameOnce rest

/-- Whether the objects of all fields do. -/
def fieldsNameOnce : List (String × Value) → Bool
  | [] => true
  | (_, v) :: rest => namesOnce v && fieldsNameOnce rest
end

@[simp] theorem namesOnce_text (s : String) : (text s).namesOnce = true := by
  simp [namesOnce]

theorem namesOnce_list_iff {items : List Value} :
    (list items).namesOnce = true ↔ ∀ v ∈ items, v.namesOnce = true := by
  rw [namesOnce]
  induction items with
  | nil => simp [itemsNameOnce]
  | cons v items ih => simp [itemsNameOnce, ih]

theorem namesOnce_object_iff {fields : Fields Value} :
    (object fields).namesOnce = true ↔
      fields.names.Nodup ∧ ∀ entry ∈ fields, entry.2.namesOnce = true := by
  have h : fieldsNameOnce fields = true ↔ ∀ entry ∈ fields, entry.2.namesOnce = true := by
    induction fields with
    | nil => simp [fieldsNameOnce]
    | cons entry fields ih => simp [fieldsNameOnce, ih]
  rw [namesOnce, Bool.and_eq_true, decide_eq_true_eq, h]

theorem namesOnce_of_get? {v w : Value} {name : String} (hv : v.namesOnce = true)
    (h : v.get? name = some w) : w.namesOnce = true := by
  cases v with
  | object fields => exact (namesOnce_object_iff.mp hv).2 _ (Fields.mem_of_get? h)
  | _ => cases h

end Value

open Value

namespace Fields

variable {α : Type}

theorem nodup_names_set {fields : Fields α} (h : fields.names.Nodup) (name : String) (v : α) :
    (fields.set name v).names.Nodup := by
  rw [names_set]
  split
  · exact h
  · next hname =>
    have : name ∉ fields.names := by
      rw [← get?_eq_none_iff]
      simpa [has_eq_isSome] using hname
    exact List.nodup_append.mpr ⟨h, by simp, by rintro a ha _ hb rfl; simp_all⟩

theorem nodup_names_update {fields more : Fields α} (h : fields.names.Nodup) :
    (fields.update more).names.Nodup := by
  unfold update
  induction more generalizing fields with
  | nil => exact h
  | cons e more ih => exact ih (nodup_names_set h _ _)

theorem namesOnce_set {fields : Fields Value} {name : String} {v : Value}
    (h : (object fields).namesOnce = true) (hv : v.namesOnce = true) :
    (object (fields.set name v)).namesOnce = true := by
  obtain ⟨hnames, hvalues⟩ := namesOnce_object_iff.mp h
  refine namesOnce_object_iff.mpr ⟨nodup_names_set hnames name v, fun entry hentry => ?_⟩
  rcases mem_set hentry with h | rfl
  · exact hvalues entry h
  · exact hv

theorem namesOnce_erase {fields : Fields Value} (h : (object fields).namesOnce = true)
    (name : String) : (object (fields.erase name)).namesOnce = true := by
  obtain ⟨hnames, hvalues⟩ := namesOnce_object_iff.mp h
  exact namesOnce_object_iff.mpr
    ⟨(List.filter_sublist.map Prod.fst).nodup hnames,
      fun entry hentry => hvalues entry (List.mem_of_mem_filter hentry)⟩

theorem get?_erase_of_ne (fields : Fields α) {name removed : String} (h : name ≠ removed) :
    (fields.erase removed).get? name = fields.get? name := by
  induction fields with
  | nil => rfl
  | cons entry fields ih =>
    obtain ⟨n, v⟩ := entry
    rw [erase] at ih ⊢
    by_cases hn : n = removed
    · rw [List.filter_cons_of_neg (by simpa using hn), ih, get?,
        if_neg fun heq => h (heq.symm.trans hn)]
    · rw [List.filter_cons_of_pos (by simpa using hn), get?, ih, get?]

theorem namesOnce_update {fields news : Fields Value} (h : (object fields).namesOnce = true)
    (hnews : ∀ entry ∈ news, entry.2.namesOnce = true) :
    (object (fields.update news)).namesOnce = true := by
  unfold update
  induction news generalizing fields with
  | nil => exact h
  | cons entry news ih =>
    exact ih (namesOnce_set h (hnews entry List.mem_cons_self))
      fun e he => hnews e (List.mem_cons_of_mem _ he)

theorem namesOnce_ofPairs {pairs : List (String × Value)}
    (h : ∀ entry ∈ pairs, entry.2.namesOnce = true) :
    (object (ofPairs pairs)).namesOnce = true :=
  namesOnce_update (namesOnce_object_iff.mpr ⟨List.nodup_nil, by simp⟩) h

end Fields

namespace Policy

/-! ### Documents -/

namespace Tree

theorem namesOnce_addChild {fields : Fields Value} {v : Value} (name : String)
    (h : (object fields).namesOnce = true) (hv : v.namesOnce = true) :
    (object (addChild fields name v)).namesOnce = true := by
  unfold addChild
  split
  · exact Fields.namesOnce_set h hv
  · next items hitems =>
    have hitems := namesOnce_list_iff.mp (namesOnce_of_get? h hitems)
    refine Fields.namesOnce_set h (namesOnce_list_iff.mpr fun w hw => ?_)
    rcases List.mem_append.mp hw with hw | hw
    · exact hitems w hw
    · exact (List.mem_singleton.mp hw) ▸ hv
  · next first _ hfirst =>
    refine Fields.namesOnce_set h (namesOnce_list_iff.mpr ?_)
    simpa using ⟨namesOnce_of_get? h hfirst, hv⟩

mutual
theorem namesOnce_convert (prefixes : Prefixes) :
    ∀ e : Xml.Element, (convert prefixes e).namesOnce = true
  | .mk _ attributes content children _ => by
    rw [convert]
    split
    · exact namesOnce_text _
    -- the attributes come first, the children are added to them, and then the text
    · have hattributes : (object (attributeFields prefixes attributes)).namesOnce = true := by
        refine Fields.namesOnce_ofPairs fun entry hentry => ?_
        obtain ⟨⟨name, value⟩, -, rfl⟩ := List.mem_map.mp hentry
        exact namesOnce_text _
      have hchildren := namesOnce_convertChildren prefixes children _ hattributes
      dsimp only
      split
      · exact hchildren
      · exact Fields.namesOnce_set hchildren (namesOnce_text _)

theorem namesOnce_convertChildren (prefixes : Prefixes) :
    ∀ (children : List Xml.Element) (fields : Fields Value),
      (object fields).namesOnce = true →
        (object (convertChildren prefixes children fields)).namesOnce = true
  | [], _, h => by rwa [convertChildren]
  | .mk tag attributes content children tail :: rest, fields, h => by
    rw [convertChildren]
    exact namesOnce_convertChildren prefixes rest _
      (namesOnce_addChild _ h
        (namesOnce_convert prefixes (.mk tag attributes content children tail)))
end

/-! ### Normal form -/

theorem normalizeItems_eq_map (items : List Value) :
    normalizeItems items = items.map normalize := by
  induction items with
  | nil => rw [normalizeItems, List.map_nil]
  | cons v items ih => rw [normalizeItems, ih, List.map_cons]

theorem normalizeFields_eq_map (fields : Fields Value) :
    normalizeFields fields = fields.map fun e => (e.1, listed e.1 (normalize e.2)) := by
  induction fields with
  | nil => rw [normalizeFields, List.map_nil]
  | cons e fields ih =>
    obtain ⟨name, v⟩ := e
    rw [normalizeFields, ih, List.map_cons]

theorem normalize_list (items : List Value) :
    normalize (.list items) = .list (items.map normalize) := by
  rw [normalize, normalizeItems_eq_map]

theorem normalize_object (fields : Fields Value) :
    normalize (.object fields) =
      .object (fields.map fun e => (e.1, listed e.1 (normalize e.2))) := by
  rw [normalize, normalizeFields_eq_map]

theorem normalize_of_atom {v : Value} (hlist : v.isList = false) (hobject : v.isObject = false) :
    normalize v = v := by
  cases v with
  | list items => cases hlist
  | object fields => cases hobject
  | _ => rw [normalize] <;> simp

theorem names_normalizeFields (fields : Fields Value) :
    Fields.names (normalizeFields fields) = fields.names := by
  rw [normalizeFields_eq_map, Fields.names, List.map_map]
  rfl

theorem namesOnce_listed (name : String) {v : Value} (h : v.namesOnce = true) :
    (listed name v).namesOnce = true := by
  unfold listed
  split
  · exact namesOnce_list_iff.mpr (by simpa using h)
  · exact h

theorem namesOnce_normalize (v : Value) (h : v.namesOnce = true) :
    (normalize v).namesOnce = true := by
  induction v using Value.induction with
  | atom v hlist hobject => rwa [normalize_of_atom hlist hobject]
  | list items ih =>
    rw [namesOnce_list_iff] at h
    rw [normalize_list, namesOnce_list_iff]
    exact List.forall_mem_map.mpr fun v hv => ih v hv (h v hv)
  | object fields ih =>
    obtain ⟨hnames, hvalues⟩ := namesOnce_object_iff.mp h
    rw [normalize, namesOnce_object_iff, names_normalizeFields]
    refine ⟨hnames, ?_⟩
    rw [normalizeFields_eq_map]
    exact List.forall_mem_map.mpr fun e he => namesOnce_listed e.1 (ih e he (hvalues e he))

theorem namesOnce_ofDocument (document : Xml.Document) :
    (ofDocument document).namesOnce = true := by
  have hroot : ∀ v : Value, v.namesOnce = true →
      ∀ entry ∈ rootFields v, entry.2.namesOnce = true := by
    intro v hv
    unfold rootFields
    split
    · exact (namesOnce_object_iff.mp hv).2
    · split <;> simp_all
  refine namesOnce_normalize _ (namesOnce_object_iff.mpr ⟨by simp [Fields.names], ?_⟩)
  simp only [List.mem_singleton, forall_eq]
  refine Fields.namesOnce_update (Fields.namesOnce_ofPairs fun entry hentry => ?_)
    (hroot _ (namesOnce_convert _ _))
  obtain ⟨⟨name, value⟩, -, rfl⟩ := List.mem_map.mp hentry
  exact namesOnce_text _

/-- **The tree of a document names each field once.** -/
theorem namesOnce_of_parse {xml : String} {tree : Value} (h : parse xml = .ok tree) :
    tree.namesOnce = true := by
  unfold parse at h
  split at h
  · cases h
  · split at h <;> cases h
    exact namesOnce_ofDocument _

end Tree

/-! ### Elements -/

namespace Node

/-- What is not a list has nothing but itself as an element. -/
theorem eq_of_mem_asList {v w : Value} (hv : v.isList = false) (h : w ∈ asList v) : w = v := by
  unfold asList at h
  split at h
  · cases h
  · split at h
    · cases h
    · exact List.mem_singleton.mp h
  · cases hv
  · exact List.mem_singleton.mp h

theorem namesOnce_of_mem_asList {v w : Value} (hv : v.namesOnce = true) (h : w ∈ asList v) :
    w.namesOnce = true := by
  cases v with
  | list items => exact namesOnce_list_iff.mp hv w h
  | _ => rwa [eq_of_mem_asList rfl h]

theorem namesOnce_of_mem_named {node v : Value} {name : String} (hnode : node.namesOnce = true)
    (h : v ∈ named name node) : v.namesOnce = true := by
  cases node with
  | object fields =>
    cases hget : Fields.get? fields name with
    | none => simp [named, hget, asList] at h
    | some w =>
      rw [named, hget, Option.getD_some] at h
      exact namesOnce_of_mem_asList (namesOnce_of_get? hnode hget) h
  | _ => simp [named] at h

/-- **The elements below a path name each field once, if the tree does.** -/
theorem namesOnce_of_mem_children {node v : Value} (path : List String)
    (hnode : node.namesOnce = true) (h : v ∈ children node path) : v.namesOnce = true := by
  suffices ∀ nodes : List Value, (∀ w ∈ nodes, w.namesOnce = true) →
      ∀ w ∈ path.foldl (fun nodes name => nodes.flatMap (named name)) nodes,
        w.namesOnce = true from
    this [node] (by simpa using hnode) v h
  clear h
  induction path with
  | nil => exact fun _ hnodes => hnodes
  | cons name path ih =>
    intro nodes hnodes
    refine ih _ fun w hw => ?_
    obtain ⟨u, hu, hw⟩ := List.mem_flatMap.mp hw
    exact namesOnce_of_mem_named (hnodes u hu) hw

end Node

end Policy
end TrustFramework
