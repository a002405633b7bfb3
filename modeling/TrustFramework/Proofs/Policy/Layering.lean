import Mathlib.Data.List.Induction
import Mathlib.Data.List.Nodup
import Mathlib.Data.List.Perm.Basic
import TrustFramework.Policy.Merge

/-!
# Items laid onto each other by their keys

The lists of a derived policy are laid onto those of its base item by item.  An item takes the
place of the last one with its key, or goes to the end; what stands in that place afterwards is
a matter of the merge.  Once keys are told apart, such a list is known by the order of its keys,
which is that of their first occurrence, and by what stands under each: all items of the key,
laid onto each other.

## Main definitions

* `laid?` — items laid onto each other, the first at the bottom.
* `lay` — one item laid onto a list.
* `Layers` — a list holds, for each key, all items of the key laid onto each other.
* `overlaid` — a list with items of other keys or of the same ones laid onto it.
* `IsLaid` — an item is laid onto a list already.

## Main results

* `Policy.replaceLast_eq_some` — what changing the last of some items does.
* `filter_foldl_lay` — **the items of a key after laying are those before, laid onto each
  other.**
* `map_foldl_lay`, `Layers.foldl_lay` — keys keep the order in which they came, and a list that
  holds all items laid onto each other keeps doing so.
* `foldl_lay_eq_overlaid` — **what laying items of different keys gives.**
* `isLaid_foldl_lay`, `foldl_lay_eq_self` — once such items were laid, laying them again changes
  nothing.
-/

namespace TrustFramework

variable {α β κ : Type}

/-! ### Items onto items -/

/-- Items laid onto each other, each onto what those before it give. -/
def laid? (merge : α → α → α) : List α → Option α
  | [] => none
  | first :: rest => some (rest.foldl merge first)

section Laid

variable {merge : α → α → α}

@[simp] theorem laid?_nil : laid? merge [] = none := rfl

@[simp] theorem laid?_cons (first : α) (rest : List α) :
    laid? merge (first :: rest) = some (rest.foldl merge first) := rfl

theorem laid?_eq_none_iff {items : List α} : laid? merge items = none ↔ items = [] := by
  cases items <;> simp

/-- Items that were laid onto each other may stand for themselves. -/
theorem laid?_toList_append (items more : List α) :
    laid? merge ((laid? merge items).toList ++ more) = laid? merge (items ++ more) := by
  cases items with
  | nil => rfl
  | cons first rest => simp [List.foldl_append]

theorem toList_laid?_of_length_le_one (merge : α → α → α) {items : List α} (h : items.length ≤ 1) :
    (laid? merge items).toList = items := by
  match items, h with
  | [], _ => rfl
  | [x], _ => rfl

/-- What holds of a first item, and of one more laid onto what it holds of, holds of all items
laid onto each other. -/
theorem laid?_induction {Q : α → Prop} {P : List α → α → Prop} (hfirst : ∀ x, Q x → P [x] x)
    (hstep : ∀ items y x, P items y → Q x → P (items ++ [x]) (merge y x)) {items : List α}
    (hitems : ∀ x ∈ items, Q x) {result : α} (h : laid? merge items = some result) :
    P items result := by
  obtain _ | ⟨first, rest⟩ := items
  · cases h
  induction rest using List.reverseRecOn generalizing result with
  | nil =>
    obtain rfl := Option.some.inj h
    exact hfirst first (hitems first List.mem_cons_self)
  | append_singleton rest last ih =>
    rw [← List.cons_append, List.forall_mem_append] at hitems
    rw [laid?_cons, List.foldl_append, Option.some.injEq] at h
    subst h
    exact hstep (first :: rest) _ last (ih hitems.1 rfl) (hitems.2 last (List.mem_singleton_self _))

/-- Where the later item always wins, the last one is left. -/
theorem laid?_last (items : List α) : laid? (fun _ x => x) items = items.getLast? := by
  cases items with
  | nil => rfl
  | cons first rest =>
    rw [laid?_cons, List.getLast?_cons]
    congr 1
    induction rest generalizing first with
    | nil => rfl
    | cons x rest ih => rw [List.foldl_cons, ih, List.getLast?_cons, Option.getD_some]

/-- A view that commutes with merging commutes with laying. -/
theorem map_laid? {merge' : β → β → β} (f : α → β)
    (h : ∀ x y, f (merge x y) = merge' (f x) (f y)) (items : List α) :
    (laid? merge items).map f = laid? merge' (items.map f) := by
  cases items with
  | nil => rfl
  | cons first rest =>
    simp only [laid?_cons, List.map_cons, Option.map_some, List.foldl_map]
    rw [List.foldl_hom f (fun x y => (h x y).symm)]

end Laid

/-! ### Changing the last item of a kind -/

namespace Policy

variable {p : α → Bool} {f : α → α} {items items' : List α}

theorem replaceLast_eq_none_iff : replaceLast p f items = none ↔ ∀ x ∈ items, p x = false := by
  induction items with
  | nil => simp [replaceLast]
  | cons x items ih =>
    cases h : replaceLast p f items <;> simp_all [replaceLast]

/-- One item changes, behind which there is none of the kind. -/
theorem replaceLast_eq_some (h : replaceLast p f items = some items') :
    ∃ before x after, items = before ++ x :: after ∧ p x = true ∧
      (∀ y ∈ after, p y = false) ∧ items' = before ++ f x :: after := by
  induction items generalizing items' with
  | nil => simp [replaceLast] at h
  | cons x items ih =>
    cases hrest : replaceLast p f items with
    | none =>
      simp only [replaceLast, hrest] at h
      split at h
      · next hx =>
        obtain rfl := Option.some.inj h
        exact ⟨[], x, items, rfl, hx, replaceLast_eq_none_iff.mp hrest, rfl⟩
      · cases h
    | some changed =>
      simp only [replaceLast, hrest, Option.some.injEq] at h
      obtain ⟨before, y, after, rfl, hy, hafter, rfl⟩ := ih hrest
      exact ⟨x :: before, y, after, rfl, hy, hafter, h.symm⟩

/-- A change seen through a map of the items. -/
theorem replaceLast_map {g : α → β} {p : β → Bool} {f : β → β} {f' : α → α}
    (h : ∀ x, p (g x) = true → f (g x) = g (f' x)) (items : List α) :
    replaceLast p f (items.map g) = (replaceLast (fun x => p (g x)) f' items).map (List.map g) := by
  induction items with
  | nil => rfl
  | cons x items ih =>
    rw [List.map_cons, replaceLast, replaceLast, ih]
    cases replaceLast (fun x => p (g x)) f' items with
    | some changed => rfl
    | none =>
      cases hx : p (g x) with
      | true => simp [h x hx]
      | false => rfl

end Policy

/-! ### One item onto a list -/

section Lay

variable [BEq κ] [LawfulBEq κ] {key : α → Option κ} {merge : α → α → α}

/-- An item laid onto a list: onto the last one with its key, or to the end. An item without a
key matches nothing. -/
def lay (key : α → Option κ) (merge : α → α → α) (items : List α) (x : α) : List α :=
  match key x with
  | none => items ++ [x]
  | some k =>
    (Policy.replaceLast (fun y => key y == some k) (merge · x) items).getD (items ++ [x])

/-- Either nothing has the key of an item, or the last that has it changes. -/
theorem lay_cases (key : α → Option κ) (merge : α → α → α) (items : List α) (x : α) :
    ((∀ k, key x = some k → ∀ y ∈ items, key y ≠ some k) ∧ lay key merge items x = items ++ [x]) ∨
      ∃ k before y after, key x = some k ∧ items = before ++ y :: after ∧ key y = some k ∧
        (∀ z ∈ after, key z ≠ some k) ∧ lay key merge items x = before ++ merge y x :: after := by
  cases hx : key x with
  | none => exact Or.inl ⟨by simp, by rw [lay, hx]⟩
  | some k =>
    cases h : Policy.replaceLast (fun y => key y == some k) (merge · x) items with
    | none =>
      refine Or.inl ⟨?_, by simp [lay, hx, h]⟩
      rintro _ ⟨⟩ y hy
      simpa using Policy.replaceLast_eq_none_iff.mp h y hy
    | some items' =>
      obtain ⟨before, y, after, hitems, hy, hafter, rfl⟩ := Policy.replaceLast_eq_some h
      exact Or.inr ⟨k, before, y, after, rfl, hitems, by simpa using hy,
        fun z hz => by simpa using hafter z hz, by simp [lay, hx, h]⟩

/-- An item keeps its key when it is merged with one of this key. -/
def KeepsKey (key : α → Option κ) (merge : α → α → α) (x : α) : Prop :=
  ∀ k, key x = some k → ∀ y, key y = some k → key (merge y x) = some k

omit [BEq κ] [LawfulBEq κ] in
theorem keepsKey_some {key : α → κ} {x : α}
    (h : ∀ y, key y = key x → key (merge y x) = key x) :
    KeepsKey (fun z => some (key z)) merge x := by
  rintro _ ⟨⟩ y hy
  exact congrArg some (h y (Option.some.inj hy))

/-- The items of another key stay as they are. -/
theorem filter_lay_of_ne {x : α} {k : κ} (hx : KeepsKey key merge x) (hk : key x ≠ some k)
    (items : List α) : (lay key merge items x).filter (fun y => key y == some k) =
      items.filter fun y => key y == some k := by
  rcases lay_cases key merge items x with ⟨-, hlay⟩ | ⟨k', before, y, after, hx', rfl, hy, -, hlay⟩
  · simp [hlay, hk]
  · have hmerged : key (merge y x) ≠ some k := by rwa [hx k' hx' y hy, ← hx']
    have hyk : key y ≠ some k := by rwa [hy, ← hx']
    simp [hlay, hmerged, hyk]

/-- The items of a key, one of them at most, after one more was laid onto them. -/
theorem filter_lay {items : List α} {x : α} {k : κ} (hx : KeepsKey key merge x)
    (hitems : (items.filter fun y => key y == some k).length ≤ 1) :
    (lay key merge items x).filter (fun y => key y == some k) =
      (laid? merge ((items ++ [x]).filter fun y => key y == some k)).toList := by
  have hself := toList_laid?_of_length_le_one merge hitems
  by_cases hk : key x = some k
  · rcases lay_cases key merge items x with
      ⟨hnone, hlay⟩ | ⟨k', before, y, after, hx', rfl, hy, hafter, hlay⟩
    · have : items.filter (fun y => key y == some k) = [] := by
        simpa using hnone k hk
      simp [hlay, this, hk]
    · obtain rfl : k' = k := Option.some.inj (hx'.symm.trans hk)
      have hmerged : key (merge y x) = some k' := hx k' hk y hy
      have hrest : after.filter (fun y => key y == some k') = [] := by simpa using hafter
      have hfirst : before.filter (fun y => key y == some k') = [] := by
        simpa [hy, hrest] using hitems
      simp [hlay, hy, hk, hrest, hfirst, hmerged]
  · -- an item of another key changes nothing here, wherever it goes
    rw [filter_lay_of_ne hx hk, List.filter_append,
      List.filter_cons_of_neg (by simpa using hk), List.filter_nil, List.append_nil, hself]

/-- **The items of a key after laying are the items of the key before, laid onto each other.** -/
theorem filter_foldl_lay {k : κ} (items : List α) {incoming : List α}
    (hincoming : ∀ x ∈ incoming, KeepsKey key merge x)
    (hitems : (items.filter fun y => key y == some k).length ≤ 1) :
    (incoming.foldl (lay key merge) items).filter (fun y => key y == some k) =
      (laid? merge ((items ++ incoming).filter fun y => key y == some k)).toList := by
  induction incoming generalizing items with
  | nil => simpa using (toList_laid?_of_length_le_one merge hitems).symm
  | cons x incoming ih =>
    have hstep := filter_lay (hincoming x List.mem_cons_self) hitems
    rw [List.foldl_cons, ih _ (fun y hy => hincoming y (List.mem_cons_of_mem _ hy)),
      List.filter_append, hstep, laid?_toList_append, ← List.filter_append, List.append_assoc,
      List.singleton_append]
    rw [hstep]
    exact Option.length_toList_le

/-- What holds of all items and is kept by merging holds of all items after laying. -/
theorem forall_mem_foldl_lay {P : α → Prop} {items incoming : List α}
    (hitems : ∀ y ∈ items, P y) (hincoming : ∀ x ∈ incoming, P x)
    (hmerge : ∀ x ∈ incoming, ∀ k, key x = some k → ∀ y, P y → key y = some k → P (merge y x)) :
    ∀ y ∈ incoming.foldl (lay key merge) items, P y := by
  induction incoming generalizing items with
  | nil => exact hitems
  | cons x incoming ih =>
    rw [List.forall_mem_cons] at hincoming hmerge
    refine ih ?_ hincoming.2 hmerge.2
    rcases lay_cases key merge items x with
      ⟨-, hlay⟩ | ⟨k, before, y, after, hx, rfl, hy, -, hlay⟩
    · rw [hlay]
      exact List.forall_mem_append.mpr ⟨hitems, by simpa using hincoming.1⟩
    · rw [List.forall_mem_append, List.forall_mem_cons] at hitems
      obtain ⟨hbefore, hy', hafter⟩ := hitems
      rw [hlay, List.forall_mem_append, List.forall_mem_cons]
      exact ⟨hbefore, hmerge.1 k hx y hy' hy, hafter⟩

theorem foldl_lay_ne_nil {items : List α} (h : items ≠ []) (incoming : List α) :
    incoming.foldl (lay key merge) items ≠ [] := by
  induction incoming generalizing items with
  | nil => exact h
  | cons x incoming ih =>
    refine ih ?_
    rcases lay_cases key merge items x with ⟨-, hlay⟩ | ⟨_, before, y, after, -, -, -, -, hlay⟩ <;>
      simp [hlay]

end Lay

/-! ### Lists with an item for each key -/

section Layers

variable [BEq κ] [LawfulBEq κ]

theorem nodup_addNew {keys : List κ} (h : keys.Nodup) (k : κ) : (addNew keys k).Nodup := by
  unfold addNew
  split
  · exact h
  · next hk => exact List.nodup_append.mpr ⟨h, by simp, by rintro a ha _ hb rfl; simp_all⟩

theorem nodup_addAllNew {keys : List κ} (h : keys.Nodup) (more : List κ) :
    (addAllNew keys more).Nodup := by
  induction more generalizing keys with
  | nil => exact h
  | cons k more ih => exact ih (nodup_addNew h k)

theorem mem_addNew {keys : List κ} {k k' : κ} : k' ∈ addNew keys k ↔ k' ∈ keys ∨ k' = k := by
  unfold addNew
  split
  · next hk =>
    refine ⟨Or.inl, ?_⟩
    rintro (h | rfl)
    · exact h
    · exact List.contains_iff_mem.mp hk
  · simp

theorem mem_addAllNew {keys more : List κ} {k : κ} :
    k ∈ addAllNew keys more ↔ k ∈ keys ∨ k ∈ more := by
  induction more generalizing keys with
  | nil => simp [addAllNew]
  | cons k' more ih =>
    rw [addAllNew, List.foldl_cons, ← addAllNew, ih, mem_addNew, List.mem_cons, or_assoc]

theorem mem_distinct {keys : List κ} {k : κ} : k ∈ distinct keys ↔ k ∈ keys := by
  rw [distinct, mem_addAllNew]
  simp

omit [LawfulBEq κ] in
theorem addAllNew_append (keys more others : List κ) :
    addAllNew keys (more ++ others) = addAllNew (addAllNew keys more) others :=
  List.foldl_append

/-- Keys that occur once each are added where they are new. -/
theorem addAllNew_eq_append (keys : List κ) {more : List κ} (h : more.Nodup) :
    addAllNew keys more = keys ++ more.filter fun k => !keys.contains k := by
  induction more generalizing keys with
  | nil => simp [addAllNew]
  | cons k more ih =>
    obtain ⟨hk, hmore⟩ := List.nodup_cons.mp h
    rw [addAllNew, List.foldl_cons, ← addAllNew, ih _ hmore]
    unfold addNew
    split
    · next hmem => simp_all
    · next hmem =>
      -- the key is none of the others, so that nothing changes for them
      have : more.filter (fun k' => !(keys ++ [k]).contains k') =
          more.filter fun k' => !keys.contains k' := by
        refine List.filter_congr fun k' hk' => ?_
        have : k' ≠ k := fun h => hk (h ▸ hk')
        simp [this]
      simp_all

omit [LawfulBEq κ] in
theorem distinct_append_singleton (keys : List κ) (k : κ) :
    distinct (keys ++ [k]) = addNew (distinct keys) k := addAllNew_append [] keys [k]

/-- Keys that are there are not added. -/
theorem addAllNew_eq_self {keys more : List κ} (h : more ⊆ keys) : addAllNew keys more = keys := by
  induction more with
  | nil => rfl
  | cons k more ih =>
    obtain ⟨hk, hmore⟩ := List.cons_subset.mp h
    rw [addAllNew, List.foldl_cons, addNew, if_pos (List.contains_iff_mem.mpr hk)]
    exact ih hmore

/-- Keys are added once each, so that it does not count how often they come. -/
theorem addAllNew_distinct (keys more : List κ) :
    addAllNew keys (distinct more) = addAllNew keys more := by
  induction more using List.reverseRecOn with
  | nil => rfl
  | append_singleton more k ih =>
    have hadded : addAllNew keys (more ++ [k]) = addNew (addAllNew keys more) k :=
      addAllNew_append keys more [k]
    rw [distinct_append_singleton, hadded]
    by_cases hk : k ∈ distinct more
    · have hmem : k ∈ addAllNew keys more := mem_addAllNew.mpr (Or.inr (mem_distinct.mp hk))
      rw [addNew, if_pos (List.contains_iff_mem.mpr hk), addNew,
        if_pos (List.contains_iff_mem.mpr hmem), ih]
    · rw [addNew, if_neg (by simpa using hk), addAllNew_append, ih]
      rfl

theorem distinct_map {κ' : Type} [BEq κ'] [LawfulBEq κ'] {f : κ → κ'}
    (hf : ∀ a b, f a = f b → a = b) (keys : List κ) :
    distinct (keys.map f) = (distinct keys).map f := by
  induction keys using List.reverseRecOn with
  | nil => rfl
  | append_singleton keys k ih =>
    rw [List.map_append, List.map_singleton, distinct_append_singleton, ih,
      distinct_append_singleton]
    by_cases hk : k ∈ distinct keys
    · have : f k ∈ (distinct keys).map f := List.mem_map_of_mem hk
      simp only [addNew, List.contains_iff_mem, hk, this, if_true]
    · have : f k ∉ (distinct keys).map f := by
        intro hmem
        obtain ⟨k', hk', heq⟩ := List.mem_map.mp hmem
        exact hk (hf _ _ heq ▸ hk')
      simp only [addNew, List.contains_iff_mem, hk, this, if_false, List.map_append,
        List.map_singleton]

/-- Keys that occur once each come in the order in which they occur. -/
theorem distinct_eq_self {keys : List κ} (h : keys.Nodup) : distinct keys = keys := by
  unfold distinct
  simpa using addAllNew_eq_append [] h

variable {key : α → κ} {merge : α → α → α} {all items result : List α}

theorem filter_eq_toList_find? (h : (items.map key).Nodup) (k : κ) :
    items.filter (fun x => key x == k) = (items.find? fun x => key x == k).toList := by
  induction items with
  | nil => rfl
  | cons x items ih =>
    rw [List.map_cons, List.nodup_cons] at h
    obtain ⟨hx, hrest⟩ := h
    by_cases hk : key x = k
    · have : items.filter (fun y => key y == k) = [] := by
        simp only [List.filter_eq_nil_iff, beq_iff_eq]
        intro y hy hyk
        exact hx (List.mem_map.mpr ⟨y, hy, hyk.trans hk.symm⟩)
      simp [hk, this]
    · simpa [hk] using ih hrest

/-- A list with an item for each key is known by its keys and what stands under them. -/
theorem eq_of_find?_eq {others : List α} (h : (items.map key).Nodup)
    (hkeys : others.map key = items.map key)
    (hfind : ∀ k, items.find? (fun x => key x == k) = others.find? fun x => key x == k) :
    items = others := by
  induction items generalizing others with
  | nil => simpa using hkeys.symm
  | cons x items ih =>
    obtain _ | ⟨y, others⟩ := others
    · simp at hkeys
    rw [List.map_cons, List.nodup_cons] at h
    obtain ⟨hx, hrest⟩ := h
    simp only [List.map_cons, List.cons.injEq] at hkeys
    obtain rfl : x = y := by simpa [hkeys.1] using hfind (key x)
    rw [ih hrest hkeys.2 fun k => ?_]
    by_cases hk : key x = k
    · -- neither of the rests has the key of the first item again
      have hnone : ∀ list : List α, list.map key = items.map key →
          list.find? (fun z => key z == k) = none := by
        intro list hlist
        simp only [List.find?_eq_none, beq_iff_eq]
        intro z hz hzk
        have : k ∈ list.map key := List.mem_map.mpr ⟨z, hz, hzk⟩
        rw [hlist, ← hk] at this
        exact hx this
      rw [hnone _ rfl, hnone _ hkeys.2]
    · simpa [hk] using hfind k

/-- A list that has an item for each key among `all`: the items of the key, laid onto each
other. -/
structure Layers (key : α → κ) (merge : α → α → α) (all result : List α) : Prop where
  nodup : (result.map key).Nodup
  find?_eq : ∀ k, result.find? (fun x => key x == k) =
    laid? merge (all.filter fun x => key x == k)

/-- Keys and items stay in the order in which they came. -/
theorem map_foldl_lay (items : List α) {incoming : List α}
    (hincoming : ∀ x ∈ incoming, ∀ y, key y = key x → key (merge y x) = key x) :
    (incoming.foldl (lay (fun x => some (key x)) merge) items).map key =
      addAllNew (items.map key) (incoming.map key) := by
  induction incoming generalizing items with
  | nil => rfl
  | cons x incoming ih =>
    rw [List.foldl_cons, ih _ fun y hy => hincoming y (List.mem_cons_of_mem _ hy), List.map_cons]
    refine congrArg (addAllNew · (incoming.map key)) ?_
    rcases lay_cases (fun x => some (key x)) merge items x with
      ⟨hnone, hlay⟩ | ⟨k, before, y, after, hx, rfl, hy, -, hlay⟩
    · have : key x ∉ items.map key := by
        rintro hmem
        obtain ⟨y, hy, hyx⟩ := List.mem_map.mp hmem
        exact hnone _ rfl y hy (by rw [hyx])
      simp [hlay, addNew, this]
    · have hyx : key y = key x := Option.some.inj (hy.trans hx.symm)
      simp [hlay, addNew, hincoming x List.mem_cons_self y hyx, hyx]

theorem Layers.of_nodup (merge : α → α → α) (h : (all.map key).Nodup) :
    Layers key merge all all where
  nodup := h
  find?_eq k := by
    rw [filter_eq_toList_find? h k]
    cases all.find? fun x => key x == k <;> rfl

/-- **A list that holds all items laid onto each other holds further ones once they are laid
onto it.** -/
theorem Layers.foldl_lay (h : Layers key merge all result) {incoming : List α}
    (hincoming : ∀ x ∈ incoming, ∀ y, key y = key x → key (merge y x) = key x) :
    Layers key merge (all ++ incoming)
      (incoming.foldl (lay (fun x => some (key x)) merge) result) where
  nodup := by
    rw [map_foldl_lay result hincoming]
    exact nodup_addAllNew h.nodup _
  find?_eq k := by
    have hfilter := filter_eq_toList_find? h.nodup k
    have hkeep : ∀ x ∈ incoming, KeepsKey (fun x => some (key x)) merge x :=
      fun x hx => keepsKey_some (hincoming x hx)
    have hall := filter_foldl_lay (k := k) result hkeep
      (by simp [hfilter, Option.length_toList_le])
    simp only [Option.some_beq_some, List.filter_append] at hall ⊢
    rw [← List.head?_filter, hall, hfilter, h.find?_eq k, laid?_toList_append]
    exact Option.head?_toList

/-- An item with the first one of its key among others laid onto it, if there is one. -/
def withLaid (key : α → κ) (merge : α → α → α) (incoming : List α) (y : α) : α :=
  match incoming.find? fun x => key x == key y with
  | some x => merge y x
  | none => y

/-- The items of a list, each with the one of its key among others laid onto it, and behind them
the others with keys that are new. -/
def overlaid (key : α → κ) (merge : α → α → α) (items incoming : List α) : List α :=
  items.map (withLaid key merge incoming) ++
    incoming.filter fun x => !(items.map key).contains (key x)

theorem key_withLaid {incoming : List α}
    (hincoming : ∀ x ∈ incoming, ∀ y, key y = key x → key (merge y x) = key x) (y : α) :
    key (withLaid key merge incoming y) = key y := by
  unfold withLaid
  split
  · next x hfind =>
    have hxy : key x = key y := by simpa using List.find?_some hfind
    exact (hincoming x (List.mem_of_find?_eq_some hfind) y hxy.symm).trans hxy
  · rfl

/-- **Items of different keys that are laid onto items of different keys** go onto the one with
their key each, or to the end. -/
theorem foldl_lay_eq_overlaid {incoming : List α} (hitems : (items.map key).Nodup)
    (h : (incoming.map key).Nodup)
    (hincoming : ∀ x ∈ incoming, ∀ y, key y = key x → key (merge y x) = key x) :
    incoming.foldl (lay (fun x => some (key x)) merge) items =
      overlaid key merge items incoming := by
  have hkey := key_withLaid hincoming
  have hlayers := (Layers.of_nodup merge hitems).foldl_lay hincoming
  refine eq_of_find?_eq hlayers.nodup ?_ fun k => ?_
  · rw [map_foldl_lay items hincoming, addAllNew_eq_append _ h, overlaid, List.map_append,
      List.map_map, List.filter_map]
    exact congrArg (· ++ _) (List.map_congr_left fun y _ => hkey y)
  · rw [hlayers.find?_eq k, overlaid, List.filter_append, filter_eq_toList_find? hitems k,
      filter_eq_toList_find? h k, List.find?_append, List.find?_map]
    simp only [Function.comp_def, hkey]
    cases hfind : items.find? fun y => key y == k with
    | some y =>
      obtain rfl : key y = k := by simpa using List.find?_some hfind
      rw [Option.map_some, Option.some_or, withLaid]
      cases incoming.find? fun x => key x == key y <;> rfl
    | none =>
      -- no item has the key, so that what has it is new
      have hnew : (incoming.filter fun x => !(items.map key).contains (key x)).find?
          (fun x => key x == k) = incoming.find? fun x => key x == k := by
        rw [← List.head?_filter, List.filter_filter, ← List.head?_filter]
        refine congrArg List.head? (List.filter_congr fun x _ => ?_)
        by_cases hx : key x = k
        · simpa [hx] using hfind
        · simp [hx]
      rw [Option.map_none, Option.none_or, hnew]
      cases incoming.find? fun x => key x == k <;> rfl

/-- Items that are told apart by their keys are a list of their own. -/
theorem foldl_lay_nil {incoming : List α} (h : (incoming.map key).Nodup)
    (hincoming : ∀ x ∈ incoming, ∀ y, key y = key x → key (merge y x) = key x) :
    incoming.foldl (lay (fun x => some (key x)) merge) [] = incoming := by
  rw [foldl_lay_eq_overlaid (by simp) h hincoming]
  simp [overlaid]

/-- The order of a list with an item for each key does not count. -/
theorem filter_eq_of_perm {others : List α} (h : (items.map key).Nodup)
    (hperm : others.Perm items) (k : κ) :
    others.filter (fun x => key x == k) = items.filter fun x => key x == k := by
  have hfilter := hperm.filter fun x => key x == k
  rw [filter_eq_toList_find? h k] at hfilter ⊢
  cases hfind : items.find? fun x => key x == k <;> simp_all

theorem find?_eq_of_perm {others : List α} (h : (items.map key).Nodup)
    (hperm : others.Perm items) (k : κ) :
    others.find? (fun x => key x == k) = items.find? fun x => key x == k := by
  rw [← List.head?_filter, filter_eq_of_perm h hperm, List.head?_filter]

theorem Layers.perm (h : Layers key merge all result) {result' : List α}
    (hperm : result'.Perm result) : Layers key merge all result' where
  nodup := (hperm.map key).nodup_iff.mpr h.nodup
  find?_eq k := by rw [find?_eq_of_perm h.nodup hperm k, h.find?_eq k]

/-- Every item of the list has the key of one that it was made of. -/
theorem Layers.exists_of_mem (h : Layers key merge all result) {x : α} (hx : x ∈ result) :
    ∃ y ∈ all, key y = key x := by
  by_contra hnone
  push Not at hnone
  have hfilter : all.filter (fun y => key y == key x) = [] := by simpa using hnone
  have hfind := h.find?_eq (key x)
  rw [hfilter, laid?_nil, List.find?_eq_none] at hfind
  exact hfind x hx (by simp)

/-- And there is an item for each key. -/
theorem Layers.exists_key_eq (h : Layers key merge all result) {y : α} (hy : y ∈ all) :
    ∃ x ∈ result, key x = key y := by
  by_contra hnone
  push Not at hnone
  have hfind : result.find? (fun x => key x == key y) = none := by
    simpa only [List.find?_eq_none, beq_iff_eq] using hnone
  rw [h.find?_eq, laid?_eq_none_iff, List.filter_eq_nil_iff] at hfind
  exact hfind y hy (by simp)

/-- The list has the keys of what it was made of, also those of another kind. -/
theorem Layers.mem_map_iff {κ' : Type} (h : Layers key merge all result) {key' : α → κ'}
    (hsame : ∀ x ∈ all ++ result, ∀ y ∈ all ++ result, key x = key y → key' x = key' y)
    {k : κ'} : k ∈ result.map key' ↔ k ∈ all.map key' := by
  constructor
  · intro hk
    obtain ⟨x, hx, rfl⟩ := List.mem_map.mp hk
    obtain ⟨y, hy, hyx⟩ := h.exists_of_mem hx
    exact List.mem_map.mpr ⟨y, hy,
      hsame y (List.mem_append_left _ hy) x (List.mem_append_right _ hx) hyx⟩
  · intro hk
    obtain ⟨y, hy, rfl⟩ := List.mem_map.mp hk
    obtain ⟨x, hx, hxy⟩ := h.exists_key_eq hy
    exact List.mem_map.mpr ⟨x, hx,
      hsame x (List.mem_append_right _ hx) y (List.mem_append_left _ hy) hxy⟩

/-- What stands under the keys of another kind that tell the same items apart. -/
theorem Layers.find?_of_same {κ' : Type} [BEq κ'] [LawfulBEq κ'] (h : Layers key merge all result)
    {key' : α → κ'} (hsame : ∀ x ∈ all ++ result, ∀ y ∈ all ++ result,
      key x = key y → key' x = key' y)
    (hapart : ∀ x ∈ all, ∀ y ∈ all, key' x = key' y → key x = key y) (k : κ') :
    result.find? (fun x => key' x == k) = laid? merge (all.filter fun x => key' x == k) := by
  have hmem : ∀ x ∈ all, x ∈ all ++ result := fun x => List.mem_append_left result
  by_cases hk : ∃ v ∈ all, key' v = k
  · obtain ⟨v, hv, rfl⟩ := hk
    have hiff : ∀ x ∈ all ++ result, (key' x == key' v) = (key x == key v) := by
      intro x hx
      rw [Bool.eq_iff_iff, beq_iff_eq, beq_iff_eq]
      refine ⟨fun hkey => ?_, fun hkey => hsame x hx v (hmem v hv) hkey⟩
      rcases List.mem_append.mp hx with hx' | hx'
      · exact hapart x hx' v hv hkey
      · -- the item has the key of one that it was made of
        obtain ⟨y, hy, hyx⟩ := h.exists_of_mem hx'
        rw [← hyx]
        exact hapart y hy v hv ((hsame y (hmem y hy) x hx hyx).trans hkey)
    rw [← List.head?_filter, List.filter_congr fun x hx => hiff x (List.mem_append_right all hx),
      List.head?_filter, h.find?_eq, List.filter_congr fun x hx => hiff x (hmem x hx)]
  · push Not at hk
    have hall : all.filter (fun x => key' x == k) = [] := by simpa using hk
    rw [hall, laid?_nil, List.find?_eq_none]
    intro x hx hkey
    obtain ⟨y, hy, hyx⟩ := h.exists_of_mem hx
    exact hk y hy ((hsame y (hmem y hy) x (List.mem_append_right all hx) hyx).trans
      (by simpa using hkey))

end Layers

/-! ### Items that are laid already -/

section IsLaid

variable [BEq κ] [LawfulBEq κ] {key : α → κ} {merge : α → α → α} {items incoming : List α} {x : α}

/-- An item is laid onto a list already: the last one of its key stays as it is under it. -/
def IsLaid (key : α → κ) (merge : α → α → α) (items : List α) (x : α) : Prop :=
  ∃ y, (items.filter fun z => key z == key x).getLast? = some y ∧ merge y x = y

theorem IsLaid.lay_eq_self (h : IsLaid key merge items x) :
    lay (fun z => some (key z)) merge items x = items := by
  obtain ⟨y, hlast, hmerge⟩ := h
  rcases lay_cases (fun z => some (key z)) merge items x with
    ⟨hnone, -⟩ | ⟨k, before, z, after, hx, rfl, hz, hafter, hlay⟩
  · have hy := List.mem_filter.mp (List.mem_of_getLast? hlast)
    exact absurd (congrArg some (by simpa using hy.2)) (hnone _ rfl y hy.1)
  · -- the item goes onto the last one of its key, which does not change
    obtain rfl := Option.some.inj hx
    have hrest : after.filter (fun z => key z == key x) = [] := by simpa using hafter
    have hzy : z = y := by simpa [Option.some.inj hz, hrest] using hlast
    rw [hlay, hzy, hmerge]

theorem foldl_lay_eq_self (h : ∀ x ∈ incoming, IsLaid key merge items x) :
    incoming.foldl (lay (fun z => some (key z)) merge) items = items := by
  induction incoming with
  | nil => rfl
  | cons x incoming ih =>
    rw [List.forall_mem_cons] at h
    rw [List.foldl_cons, h.1.lay_eq_self, ih h.2]

/-- An item that does not count twice is laid onto a list once it was laid. -/
theorem isLaid_lay (hkeep : ∀ y, key y = key x → key (merge y x) = key x)
    (hself : merge x x = x) (htwice : ∀ y, merge (merge y x) x = merge y x) (items : List α) :
    IsLaid key merge (lay (fun z => some (key z)) merge items x) x := by
  rcases lay_cases (fun z => some (key z)) merge items x with
    ⟨-, hlay⟩ | ⟨k, before, y, after, hx, rfl, hy, hafter, hlay⟩
  · exact ⟨x, by simp [hlay], hself⟩
  · obtain rfl := Option.some.inj hx
    have hrest : after.filter (fun z => key z == key x) = [] := by simpa using hafter
    have hmerged := hkeep y (Option.some.inj hy)
    exact ⟨merge y x, by simp [hlay, hmerged, hrest], htwice y⟩

/-- What comes under other keys leaves an item laid. -/
theorem IsLaid.foldl_lay (h : IsLaid key merge items x)
    (hne : ∀ x' ∈ incoming, key x' ≠ key x)
    (hkeep : ∀ x' ∈ incoming, ∀ y, key y = key x' → key (merge y x') = key x') :
    IsLaid key merge (incoming.foldl (lay (fun z => some (key z)) merge) items) x := by
  induction incoming generalizing items with
  | nil => exact h
  | cons x' incoming ih =>
    rw [List.forall_mem_cons] at hne hkeep
    refine ih ?_ hne.2 hkeep.2
    have hfilter := filter_lay_of_ne (keepsKey_some hkeep.1)
      (fun heq => hne.1 (Option.some.inj heq)) items
    simp only [Option.some_beq_some] at hfilter
    unfold IsLaid
    rwa [hfilter]

/-- **Items of different keys are laid onto a list once they were laid**, if laying each twice onto
another item is the same as laying it once. -/
theorem isLaid_foldl_lay (hnodup : (incoming.map key).Nodup)
    (hkeep : ∀ x ∈ incoming, ∀ y, key y = key x → key (merge y x) = key x)
    (hself : ∀ x ∈ incoming, merge x x = x)
    (htwice : ∀ x ∈ incoming, ∀ y, merge (merge y x) x = merge y x) (items : List α) :
    ∀ x ∈ incoming,
      IsLaid key merge (incoming.foldl (lay (fun z => some (key z)) merge) items) x := by
  induction incoming generalizing items with
  | nil => simp
  | cons x incoming ih =>
    rw [List.map_cons, List.nodup_cons] at hnodup
    rw [List.forall_mem_cons] at hkeep hself htwice
    refine List.forall_mem_cons.mpr ⟨?_, ih hnodup.2 hkeep.2 hself.2 htwice.2 _⟩
    refine (isLaid_lay hkeep.1 hself.1 htwice.1 items).foldl_lay (fun x' hx' heq => ?_) hkeep.2
    exact hnodup.1 (heq ▸ List.mem_map_of_mem hx')

end IsLaid

end TrustFramework
