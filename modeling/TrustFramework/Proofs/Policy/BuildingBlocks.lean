import TrustFramework.Proofs.Policy.Definitions

/-!
# Building blocks that one derived policy has

What stands in the building blocks of policies is merged section by section, and of a section
only what merging knows: the elements with identifiers of six of them, and the languages and
resources of the localization.  A section that a derived policy alone has is whole in the
consolidated policy when it holds nothing else, and no two elements of one identifier.

## Main definitions

* `allNamed`, `blockSections` — everything of a name in a node, and in the building blocks of a
  policy.
* `HasBlocks` — the sections of a name, while they may be written into.
* `HoldSame` — two nodes have the same fields, up to whether what stands alone is in a list.
* `IsCarried` — merging knows all that a section holds.

## Main results

* `mergeItems_nil_eq_self_iff` — elements laid onto each other stay as they are when their
  identifiers differ.
* `blockSections_foldl_mergePolicy` — **what merged policies have of a section that one derived
  policy alone has.**
* `exists_holdSame_iff` — what merging writes of a section is all of it when it knows all of it.
* `blockSections_consolidate_iff` — **when a section that one derived policy has survives.**
-/

namespace TrustFramework
namespace Policy

open Policy.Node

/-! ### Elements of different identifiers -/

section Lists

variable {α κ : Type} [BEq κ] [LawfulBEq κ] {key : α → Option κ} {merge : α → α → α}

variable (key merge) in
theorem length_foldl_lay_le (items incoming : List α) :
    (incoming.foldl (lay key merge) items).length ≤ items.length + incoming.length := by
  induction incoming generalizing items with
  | nil => exact Nat.le_refl _
  | cons x incoming ih =>
    have hlay : (lay key merge items x).length ≤ items.length + 1 := by
      rcases lay_cases key merge items x with ⟨-, h⟩ | ⟨k, before, y, after, -, rfl, -, -, h⟩ <;>
        simp [h]
    have := ih (lay key merge items x)
    rw [List.foldl_cons, List.length_cons]
    omega

/-- **Items laid onto others by their keys are added to them exactly when no key comes twice.** -/
theorem foldl_lay_eq_append_iff {items : List α} (hitems : (items.filterMap key).Nodup)
    (incoming : List α) : incoming.foldl (lay key merge) items = items ++ incoming ↔
      ((items ++ incoming).filterMap key).Nodup := by
  induction incoming generalizing items with
  | nil => simpa using hitems
  | cons x incoming ih =>
    rw [List.foldl_cons]
    rcases lay_cases key merge items x with ⟨hnew, hlay⟩ |
      ⟨k, before, y, after, hk, rfl, hy, -, hlay⟩
    · have hadded : ((items ++ [x]).filterMap key).Nodup := by
        rw [List.filterMap_append]
        cases hx : key x with
        | none => simpa [hx] using hitems
        | some k =>
          have : ∀ y ∈ items, key y ≠ some k := hnew k hx
          simp only [List.filterMap_cons, hx, List.filterMap_nil]
          refine List.nodup_append.mpr ⟨hitems, List.nodup_singleton k, ?_⟩
          rintro a ha b hb rfl
          obtain ⟨y, hy, hya⟩ := List.mem_filterMap.mp ha
          exact this y hy (hya.trans (congrArg some (List.mem_singleton.mp hb)))
      have hshift : items ++ x :: incoming = (items ++ [x]) ++ incoming := by simp
      rw [hlay, hshift, ih hadded]
    · -- an item that is merged into another one makes the list shorter
      refine iff_of_false (fun heq => ?_) fun hnodup => ?_
      · have hle := length_foldl_lay_le key merge
          (lay key merge (before ++ y :: after) x) incoming
        rw [heq, hlay] at hle
        simp only [List.length_append, List.length_cons] at hle
        omega
      · simp [List.filterMap_append, hy, hk, List.nodup_append] at hnodup

end Lists

/-- **Elements laid onto each other stay as they are when their identifiers differ.** -/
theorem mergeItems_nil_eq_self_iff (items : List Value) :
    mergeItems id? [] items = items ↔ (items.filterMap id?).Nodup := by
  rw [mergeItems_eq_foldl]
  have hnone : (([] : List Value).filterMap id?).Nodup := List.nodup_nil
  exact foldl_lay_eq_append_iff hnone items

/-! ### Sections of the building blocks -/

/-- All that stands under a name in a node, alone or in a list, the empty included. -/
def allNamed (name : String) : Value → List Value
  | .object fields => match Fields.get? fields name with
    | none => []
    | some (.list items) => items
    | some v => [v]
  | _ => []

/-- The sections of a name in the building blocks of a policy. -/
def blockSections (root : Fields Value) (name : String) : List Value :=
  (children (.object root) ["BuildingBlocks"]).flatMap (allNamed name)

/-- Two nodes have the same attributes and children, up to whether what stands alone is in a
list. -/
def HoldSame : Value → Value → Prop
  | .object fields, .object others =>
    ∀ name, allNamed name (.object fields) = allNamed name (.object others)
  | v, w => v = w

/-- What stands in no list of its own is among the elements of a name unless it is empty. -/
theorem allNamed_eq_itemsAt {fields : Fields Value} {name : String} (h : itemsAt fields name ≠ []) :
    allNamed name (.object fields) = itemsAt fields name := by
  unfold itemsAt at h ⊢
  rw [allNamed]
  cases hget : fields.get? name with
  | none => simp [hget, asList] at h
  | some v =>
    rw [hget, Option.getD_some] at h
    cases v with
    | text s =>
      rw [asList] at h
      split at h
      · exact absurd rfl h
      · next hs => simp [asList, hs]
    | null => exact absurd rfl h
    | _ => rfl

/-- What is empty has no elements in it. -/
theorem flatMap_named_allNamed (node : Value) (name element : String) :
    (allNamed name node).flatMap (named element) = (named name node).flatMap (named element) := by
  cases node with
  | object fields =>
    rw [allNamed, named]
    cases Fields.get? fields name with
    | none => rfl
    | some v =>
      cases v with
      | text s => by_cases hs : s.isEmpty = true <;> simp [asList, hs, named]
      | _ => rfl
  | _ => rfl

theorem named_sublist_allNamed (node : Value) (name : String) :
    (named name node).Sublist (allNamed name node) := by
  by_cases h : named name node = []
  · rw [h]
    exact List.nil_sublist _
  · cases node with
    | object fields =>
      rw [allNamed_eq_itemsAt h]
      exact List.Sublist.refl _
    | _ => exact absurd rfl h

theorem mem_named_of_mem_allNamed {node v : Value} {name : String} (hv : v.isObject = true)
    (h : v ∈ allNamed name node) : v ∈ named name node := by
  cases node with
  | object fields =>
    rw [allNamed] at h
    rw [named]
    cases hget : Fields.get? fields name with
    | none => simp [hget] at h
    | some w =>
      rw [hget] at h
      cases w with
      | list items => exact h
      | _ =>
        rw [List.mem_singleton.mp h] at hv ⊢
        first
          | exact absurd hv Bool.false_ne_true
          | exact List.mem_singleton_self _
  | _ => cases h

/-- The elements in sections of the building blocks. -/
theorem children_blockSections (root : Fields Value) (name element : String) :
    children (.object root) ["BuildingBlocks", name, element] =
      (blockSections root name).flatMap (named element) := by
  rw [children_cons, blockSections, List.flatMap_assoc]
  simp only [flatMap_named_allNamed]
  simp [children]

/-- The sections that merging finds are all but the empty ones. -/
theorem children_sublist_blockSections (root : Fields Value) (name : String) :
    (children (.object root) ["BuildingBlocks", name]).Sublist (blockSections root name) := by
  have hpath : children (.object root) ["BuildingBlocks", name] =
      (children (.object root) ["BuildingBlocks"]).flatMap (named name) := by simp [children]
  rw [hpath, blockSections]
  exact List.Sublist.flatMap_right _ fun node _ => named_sublist_allNamed node name

theorem mem_children_of_mem_blockSections {root : Fields Value} {name : String} {v : Value}
    (hv : v.isObject = true) (h : v ∈ blockSections root name) :
    v ∈ children (.object root) ["BuildingBlocks", name] := by
  have hpath : children (.object root) ["BuildingBlocks", name] =
      (children (.object root) ["BuildingBlocks"]).flatMap (named name) := by simp [children]
  obtain ⟨node, hnode, hmem⟩ := List.mem_flatMap.mp h
  rw [hpath]
  exact List.mem_flatMap.mpr ⟨node, hnode, mem_named_of_mem_allNamed hv hmem⟩

/-- A section of its own is what merging finds, unless it is empty. -/
theorem children_of_blockSections {root : Fields Value} {name : String} {v : Value}
    (h : blockSections root name = [v]) :
    children (.object root) ["BuildingBlocks", name] = [v] ∨
      (v.isObject = false ∧ children (.object root) ["BuildingBlocks", name] = []) := by
  have hsublist := children_sublist_blockSections root name
  rw [h] at hsublist
  rcases List.sublist_singleton.mp hsublist with hnil | hone
  · refine Or.inr ⟨?_, hnil⟩
    by_contra hv
    have := mem_children_of_mem_blockSections (Bool.eq_true_of_not_eq_false hv)
      (h ▸ List.mem_singleton_self v)
    rw [hnil] at this
    cases this
  · exact Or.inl hone

/-! ### Sections after writing -/

/-- The sections of a name, which are also those of a `BuildingBlocks` that stands alone. -/
structure HasBlocks (root : Fields Value) (name : String) (sections : List Value) : Prop where
  all : blockSections root name = sections
  sole : allNamed name (.object (containerFields (root.get? "BuildingBlocks"))) = sections

variable {root base source : Fields Value} {name : String} {sections : List Value} {w : Write}

theorem blockSections_congr {other : Fields Value}
    (h : root.get? "BuildingBlocks" = other.get? "BuildingBlocks") :
    blockSections root name = blockSections other name := by
  simp [blockSections, children, named, h]

theorem blockSections_of_get? {fields : Fields Value}
    (h : root.get? "BuildingBlocks" = some (.object fields)) :
    blockSections root name = allNamed name (.object fields) := by
  simp [blockSections, children, named, h, asList]

theorem hasBlocks_of_get? (name : String) {fields : Fields Value}
    (h : root.get? "BuildingBlocks" = some (.object fields)) :
    HasBlocks root name (allNamed name (.object fields)) :=
  ⟨blockSections_of_get? h, by rw [h]; rfl⟩

theorem hasBlocks_nil (h : blockSections root name = []) : HasBlocks root name [] := by
  refine ⟨h, ?_⟩
  cases hget : root.get? "BuildingBlocks" with
  | none => rfl
  | some v =>
    cases v with
    | object fields => exact (blockSections_of_get? hget).symm.trans h
    | _ => rfl

/-- A write into another place leaves the sections of a name. -/
theorem HasBlocks.elsewhere (h : HasBlocks root name sections) {path : List String}
    (hpath : (∃ other, other ≠ name ∧ path = ["BuildingBlocks", other]) ∨
      ∃ first rest, first ≠ "BuildingBlocks" ∧ path = first :: rest)
    (f : Fields Value → Fields Value) : HasBlocks (changeAt root path f) name sections := by
  rcases hpath with ⟨other, hother, rfl⟩ | ⟨first, rest, hfirst, rfl⟩
  · have hget : Fields.get? (changeAt root ["BuildingBlocks", other] f) "BuildingBlocks" =
        some (.object ((containerFields (root.get? "BuildingBlocks")).set other
          (.object (f (containerFields ((containerFields (root.get? "BuildingBlocks")).get?
            other)))))) := by
      rw [changeAt, Fields.get?_set_self]
      rfl
    have hsame := hasBlocks_of_get? name hget
    have hkept := h.sole
    rw [allNamed] at hkept
    rwa [allNamed, Fields.get?_set_of_ne _ _ (Ne.symm hother), hkept] at hsame
  · have hget : Fields.get? (changeAt root (first :: rest) f) "BuildingBlocks" =
        root.get? "BuildingBlocks" := get?_changeAt_of_ne (Ne.symm hfirst)
    exact ⟨(blockSections_congr hget).trans h.all, by rw [hget]; exact h.sole⟩

/-- The section that is written into where there was none. -/
theorem HasBlocks.inside (h : HasBlocks root name []) (f : Fields Value → Fields Value) :
    HasBlocks (changeAt root ["BuildingBlocks", name] f) name [.object (f [])] := by
  have hnone : containerFields ((containerFields (root.get? "BuildingBlocks")).get? name) = [] := by
    have hkept := h.sole
    rw [allNamed] at hkept
    revert hkept
    cases (containerFields (root.get? "BuildingBlocks")).get? name with
    | none => exact fun _ => rfl
    | some v => cases v <;> simp [containerFields]
  have hget : Fields.get? (changeAt root ["BuildingBlocks", name] f) "BuildingBlocks" =
      some (.object ((containerFields (root.get? "BuildingBlocks")).set name
        (.object (f [])))) := by
    rw [changeAt, Fields.get?_set_self, changeAt, hnone]
    rfl
  have hone := hasBlocks_of_get? name hget
  rwa [allNamed, Fields.get?_set_self] at hone

/-- What merging writes is into sections of the building blocks, or outside them. -/
theorem other_of_mem_writesOf (hw : w ∈ writesOf source) (hpath : w.path ≠ ["BuildingBlocks", name]) :
    (∃ other, other ≠ name ∧ w.path = ["BuildingBlocks", other]) ∨
      ∃ first rest, first ≠ "BuildingBlocks" ∧ w.path = first :: rest := by
  have hall : ∀ path ∈ ["BuildingBlocks", "Localization"] :: ["ClaimsProviders"] ::
      idMergedSections.map Prod.fst, path = ["BuildingBlocks", path.getD 1 ""] ∨
        (path ≠ [] ∧ path.headD "" ≠ "BuildingBlocks") := by decide
  rcases hall _ (path_of_mem_writesOf hw) with hblock | ⟨hne, hhead⟩
  · exact Or.inl ⟨_, fun hname => hpath (hname ▸ hblock), hblock⟩
  · match h : w.path, hne with
    | first :: rest, _ =>
      rw [h] at hhead
      exact Or.inr ⟨first, rest, hhead, rfl⟩

/-- Writing anywhere else leaves the sections of a name. -/
theorem HasBlocks.after {writes : List Write} (h : HasBlocks root name sections)
    (hwrites : ∀ w ∈ writes, w.path ≠ ["BuildingBlocks", name] ∧ ∃ source, w ∈ writesOf source) :
    HasBlocks (written root writes) name sections := by
  induction writes generalizing root with
  | nil => exact h
  | cons w writes ih =>
    rw [List.forall_mem_cons] at hwrites
    obtain ⟨⟨hpath, source, hw⟩, hrest⟩ := hwrites
    exact ih (h.elsewhere (other_of_mem_writesOf hw hpath) w.change) hrest

/-- Merging a policy writes into every container once. -/
theorem nodup_paths_writesOf (source : Fields Value) :
    ((writesOf source).map Write.path).Nodup := by
  have hparts : (((idMergedSections.filterMap (sectionWrite? source)).map Write.path).Sublist
      (idMergedSections.map Prod.fst)) := by
    rw [List.map_filterMap]
    have hpath : ∀ part w, sectionWrite? source part = some w → w.path = part.1 := by
      intro part w h
      unfold sectionWrite? at h
      split at h <;> cases h
      rfl
    generalize idMergedSections = parts
    induction parts with
    | nil => exact List.Sublist.slnil
    | cons part parts ih =>
      rw [List.map_cons, List.filterMap_cons]
      cases hw : sectionWrite? source part with
      | none => exact ih.cons _
      | some w =>
        rw [Option.map_some, hpath part w hw]
        exact ih.cons_cons _
  have hlocal : ((localizationWrite? source).toList.map Write.path).Sublist
      [["BuildingBlocks", "Localization"]] := by
    cases hw : localizationWrite? source with
    | none => exact List.nil_sublist _
    | some w => simp [path_of_localizationWrite? hw]
  have hproviders : ((providersWrite? source).toList.map Write.path).Sublist
      [["ClaimsProviders"]] := by
    unfold providersWrite?
    split <;> simp
  have hnodup : (idMergedSections.map Prod.fst ++ [["BuildingBlocks", "Localization"]] ++
      [["ClaimsProviders"]]).Nodup := by decide
  rw [writesOf, List.map_append, List.map_append]
  exact hnodup.sublist ((hparts.append hlocal).append hproviders)

/-- **What merged policies have of a section that one derived policy alone has**: what that one
writes there. -/
theorem blockSections_foldl_mergePolicy (source : Fields Value) {before after : List (Fields Value)}
    (hbase : blockSections base name = [])
    (hothers : ∀ other ∈ before ++ after, ∀ w ∈ writesOf other,
      w.path ≠ ["BuildingBlocks", name]) :
    (∀ w ∈ writesOf source, w.path = ["BuildingBlocks", name] →
      blockSections ((before ++ source :: after).foldl mergePolicy base) name =
        [.object (w.change [])]) ∧
    ((∀ w ∈ writesOf source, w.path ≠ ["BuildingBlocks", name]) →
      blockSections ((before ++ source :: after).foldl mergePolicy base) name = []) := by
  have hblocks : blockSections ((before ++ source :: after).foldl mergePolicy base) name =
      blockSections (written base ((before ++ source :: after).flatMap writesOf)) name :=
    blockSections_congr (get?_foldl_mergePolicy (by decide) (by decide) base _)
  have hapart : ∀ others : List (Fields Value), (∀ other ∈ others, other ∈ before ++ after) →
      ∀ w ∈ others.flatMap writesOf, w.path ≠ ["BuildingBlocks", name] ∧
        ∃ source, w ∈ writesOf source := by
    intro others hsub w hw
    obtain ⟨other, hother, hw⟩ := List.mem_flatMap.mp hw
    exact ⟨hothers other (hsub other hother) w hw, other, hw⟩
  have hbefore := hapart before fun other h => List.mem_append_left _ h
  have hafter := hapart after fun other h => List.mem_append_right _ h
  rw [hblocks, List.flatMap_append, List.flatMap_cons]
  have hstart := (hasBlocks_nil hbase).after hbefore
  refine ⟨fun w hw hpath => ?_, fun hnone => ?_⟩
  · -- its write stands alone among those of the policies
    obtain ⟨first, last, hsplit⟩ := List.append_of_mem hw
    have hnodup := nodup_paths_writesOf source
    rw [hsplit, List.map_append, List.map_cons, hpath, List.nodup_append] at hnodup
    obtain ⟨-, hlast, hfirst⟩ := hnodup
    have hne : ∀ other ∈ first ++ last, other.path ≠ ["BuildingBlocks", name] ∧
        ∃ source, other ∈ writesOf source := by
      intro other hother
      refine ⟨fun hp => ?_, source, hsplit ▸ ?_⟩
      · rcases List.mem_append.mp hother with h | h
        · exact hfirst _ (List.mem_map_of_mem h) _ List.mem_cons_self hp
        · exact (List.nodup_cons.mp hlast).1 (hp ▸ List.mem_map_of_mem h)
      · rcases List.mem_append.mp hother with h | h <;> simp [h]
    rw [hsplit, List.append_assoc, List.cons_append, ← List.append_assoc, written_append,
      written_append]
    have hwritten := (hstart.after fun other h => hne other (List.mem_append_left _ h)).inside
      w.change
    rw [← hpath] at hwritten
    refine ((hwritten.after fun other h => ?_).all)
    rcases List.mem_append.mp h with h | h
    · exact hne other (List.mem_append_right _ h)
    · exact hafter other h
  · rw [written_append, written_append]
    exact ((hstart.after fun w hw => ⟨hnone w hw, source, hw⟩).after hafter).all

/-! ### What a policy writes into a section -/

/-- Merging knows all that a section holds: elements of the one kind it merges there, or, of the
localization, languages and resources; of each identifier one. -/
def IsCarried (name : String) : Value → Prop
  | .object fields =>
    (∃ element, (["BuildingBlocks", name], element) ∈ idMergedSections ∧
      (∀ other, other ≠ element → allNamed other (.object fields) = []) ∧
      itemsAt fields element ≠ [] ∧ ((itemsAt fields element).filterMap id?).Nodup) ∨
    (name = "Localization" ∧
      (∀ other, other ≠ "SupportedLanguages" → other ≠ "LocalizedResources" →
        allNamed other (.object fields) = []) ∧
      (allNamed "SupportedLanguages" (.object fields) = [] ∨
        ∃ languages, Fields.get? fields "SupportedLanguages" = some (Value.object languages)) ∧
      allNamed "LocalizedResources" (.object fields) = itemsAt fields "LocalizedResources" ∧
      ((itemsAt fields "LocalizedResources").filterMap id?).Nodup)
  | _ => False

section Written

variable {fields : Fields Value}

theorem path_of_sectionWrite? {part : List String × String} (h : sectionWrite? source part = some w) :
    w.path = part.1 := by
  unfold sectionWrite? at h
  split at h <;> cases h
  rfl

/-- What is written into a section of the building blocks that a policy has once. -/
theorem sectionWrite?_of_blockSections (h : blockSections source name = [.object fields])
    (element : String) :
    sectionWrite? source (["BuildingBlocks", name], element) =
      if itemsAt fields element = [] then none
      else some ⟨["BuildingBlocks", name], fun old => old.set element
        (.list (mergeItems id? (itemsAt old element) (itemsAt fields element)))⟩ := by
  have hincoming : children (.object source) (["BuildingBlocks", name] ++ [element]) =
      itemsAt fields element := by
    rw [List.cons_append, List.cons_append, List.nil_append, children_blockSections, h,
      List.flatMap_singleton]
    rfl
  rw [sectionWrite?]
  dsimp only
  rw [hincoming]
  split
  · next hnil => rw [if_pos hnil]
  · next hne => rw [if_neg (by simpa using hne)]

/-- What is written into the localization that a policy has once. -/
theorem localizationWrite?_of_blockSections {v : Value}
    (h : blockSections source "Localization" = [v]) :
    localizationWrite? source = match v with
      | .object incoming => some ⟨["BuildingBlocks", "Localization"], mergeLocalized incoming⟩
      | _ => none := by
  rw [localizationWrite?]
  rcases children_of_blockSections h with hone | ⟨hv, hnil⟩
  · rw [hone]
    cases v <;> rfl
  · rw [hnil]
    cases v with
    | object incoming => cases hv
    | _ => rfl

/-- A section with the elements of one kind is the same as a section, if they are all it
holds. -/
theorem holdSame_section_iff {element : String} {items : List Value}
    (hne : itemsAt fields element ≠ []) :
    HoldSame (.object fields) (.object [(element, .list items)]) ↔
      (∀ other, other ≠ element → allNamed other (.object fields) = []) ∧
        items = itemsAt fields element := by
  have hother : ∀ other, other ≠ element →
      allNamed other (.object [(element, .list items)]) = [] := by
    intro other hother
    simp [allNamed, Fields.get?, Ne.symm hother]
  have hself : allNamed element (.object [(element, .list items)]) = items := by
    simp [allNamed, Fields.get?]
  rw [← allNamed_eq_itemsAt hne]
  constructor
  · refine fun h => ⟨fun other hne => ?_, ?_⟩
    · rw [h other, hother other hne]
    · rw [h element, hself]
  · rintro ⟨hnothing, hitems⟩ other
    by_cases hname : other = element
    · rw [hname, hself, hitems]
    · rw [hnothing other hname, hother other hname]

/-- What merging makes of a localization where there was none. -/
theorem allNamed_mergeLocalized (incoming : Fields Value) :
    allNamed "SupportedLanguages" (.object (mergeLocalized incoming [])) =
      (match incoming.get? "SupportedLanguages" with
        | some (.object languages) => [.object languages]
        | _ => []) ∧
    allNamed "LocalizedResources" (.object (mergeLocalized incoming [])) =
      mergeItems id? [] (itemsAt incoming "LocalizedResources") ∧
    ∀ other, other ≠ "SupportedLanguages" → other ≠ "LocalizedResources" →
      allNamed other (.object (mergeLocalized incoming [])) = [] := by
  unfold mergeLocalized
  generalize itemsAt incoming "LocalizedResources" = resources
  generalize incoming.get? "SupportedLanguages" = found
  refine ⟨?_, ?_, fun other hlanguages hresources => ?_⟩
  · rcases found with - | v
    · cases resources <;> simp [allNamed, Fields.get?, Fields.set]
    · cases v <;> cases resources <;> simp [allNamed, Fields.get?, Fields.set]
  · have hempty : mergeItems id? [] [] = [] := rfl
    rcases found with - | v
    · cases resources <;> simp [allNamed, Fields.get?, Fields.set, itemsAt, asList, hempty]
    · cases v <;> cases resources <;>
        simp [allNamed, Fields.get?, Fields.set, itemsAt, asList, hempty]
  · rcases found with - | v
    · cases resources <;> simp [allNamed, Fields.get?, Fields.set, Ne.symm hresources]
    · cases v <;> cases resources <;>
        simp [allNamed, Fields.get?, Fields.set, Ne.symm hlanguages, Ne.symm hresources]

/-- A localization is the same after merging, if it holds languages and resources only. -/
theorem holdSame_localization_iff :
    HoldSame (.object fields) (.object (mergeLocalized fields [])) ↔
      (∀ other, other ≠ "SupportedLanguages" → other ≠ "LocalizedResources" →
        allNamed other (.object fields) = []) ∧
      (allNamed "SupportedLanguages" (.object fields) = [] ∨
        ∃ languages, Fields.get? fields "SupportedLanguages" = some (.object languages)) ∧
      allNamed "LocalizedResources" (.object fields) = itemsAt fields "LocalizedResources" ∧
      ((itemsAt fields "LocalizedResources").filterMap id?).Nodup := by
  obtain ⟨hlanguages, hresources, hothers⟩ := allNamed_mergeLocalized fields
  have hlanguage : allNamed "SupportedLanguages" (.object fields) =
      allNamed "SupportedLanguages" (.object (mergeLocalized fields [])) ↔
        allNamed "SupportedLanguages" (.object fields) = [] ∨
          ∃ languages, Fields.get? fields "SupportedLanguages" = some (.object languages) := by
    rw [hlanguages, allNamed]
    rcases Fields.get? fields "SupportedLanguages" with - | v
    · simp
    · cases v <;> simp
  have hresource : allNamed "LocalizedResources" (.object fields) =
      allNamed "LocalizedResources" (.object (mergeLocalized fields [])) ↔
        allNamed "LocalizedResources" (.object fields) = itemsAt fields "LocalizedResources" ∧
          ((itemsAt fields "LocalizedResources").filterMap id?).Nodup := by
    rw [hresources, ← mergeItems_nil_eq_self_iff]
    by_cases hitems : itemsAt fields "LocalizedResources" = []
    · rw [hitems]
      simp [mergeItems]
    · simp [allNamed_eq_itemsAt hitems, eq_comm]
  rw [← hlanguage, ← hresource]
  constructor
  · exact fun h => ⟨fun other hl hr => (h other).trans (hothers other hl hr), h _, h _⟩
  · rintro ⟨hnothing, hl, hr⟩ other
    by_cases hother : other = "SupportedLanguages"
    · rw [hother, hl]
    · by_cases hother' : other = "LocalizedResources"
      · rw [hother', hr]
      · rw [hnothing other hother hother', hothers other hother hother']

/-- A section survives merging exactly when merging knows all it holds. -/
theorem exists_holdSame_iff {v : Value} (h : blockSections source name = [v]) :
    (∃ w ∈ writesOf source, w.path = ["BuildingBlocks", name] ∧
      HoldSame v (.object (w.change []))) ↔ IsCarried name v := by
  cases v with
  | object fields =>
    constructor
    · rintro ⟨w, hw, hpath, hsame⟩
      simp only [writesOf, List.mem_append, List.mem_filterMap, Option.mem_toList] at hw
      rcases hw with (⟨⟨container, element⟩, hpart, hw⟩ | hw) | hw
      · -- the elements of a kind
        have hcontainer : container = ["BuildingBlocks", name] :=
          (path_of_sectionWrite? hw).symm.trans hpath
        subst hcontainer
        rw [sectionWrite?_of_blockSections h] at hw
        split at hw
        · cases hw
        · next hne =>
          cases hw
          have hsame : HoldSame (.object fields)
              (.object [(element, .list (mergeItems id? [] (itemsAt fields element)))]) := hsame
          rw [holdSame_section_iff hne, mergeItems_nil_eq_self_iff] at hsame
          exact Or.inl ⟨element, hpart, hsame.1, hne, hsame.2⟩
      · -- the localization
        have hname : name = "Localization" := by
          have := (path_of_localizationWrite? hw).symm.trans hpath
          simpa [eq_comm] using this
        subst hname
        rw [localizationWrite?_of_blockSections h] at hw
        cases hw
        exact Or.inr ⟨rfl, holdSame_localization_iff.mp hsame⟩
      · unfold providersWrite? at hw
        split at hw <;> cases hw
        simp at hpath
    · rintro (⟨element, hpart, hnothing, hne, hnodup⟩ | ⟨rfl, hholds⟩)
      · have hw := sectionWrite?_of_blockSections h element
        rw [if_neg hne] at hw
        refine ⟨_, List.mem_append_left _ (List.mem_append_left _
          (List.mem_filterMap.mpr ⟨_, hpart, hw⟩)), rfl, ?_⟩
        exact (holdSame_section_iff hne).mpr
          ⟨hnothing, (mergeItems_nil_eq_self_iff _).mpr hnodup⟩
      · have hw := localizationWrite?_of_blockSections h
        refine ⟨_, List.mem_append_left _ (List.mem_append_right _
          (Option.mem_toList.mpr hw)), rfl, ?_⟩
        exact holdSame_localization_iff.mpr hholds
  | _ =>
    refine iff_of_false ?_ id
    rintro ⟨_, _, _, hsame⟩
    cases hsame

/-- A policy without a section writes nothing into it. -/
theorem path_ne_of_blockSections_eq_nil (h : blockSections source name = [])
    (hw : w ∈ writesOf source) : w.path ≠ ["BuildingBlocks", name] := by
  intro hpath
  simp only [writesOf, List.mem_append, List.mem_filterMap, Option.mem_toList] at hw
  rcases hw with (⟨⟨container, element⟩, hpart, hw⟩ | hw) | hw
  · have hcontainer : container = ["BuildingBlocks", name] :=
      (path_of_sectionWrite? hw).symm.trans hpath
    subst hcontainer
    have hnone : children (.object source) ["BuildingBlocks", name, element] = [] := by
      rw [children_blockSections, h, List.flatMap_nil]
    simp [sectionWrite?, hnone] at hw
  · have hname : name = "Localization" := by
      have := (path_of_localizationWrite? hw).symm.trans hpath
      simpa [eq_comm] using this
    subst hname
    have hnone : children (.object source) ["BuildingBlocks", "Localization"] = [] := by
      have := children_sublist_blockSections source "Localization"
      rwa [h, List.sublist_nil] at this
    simp [localizationWrite?, hnone] at hw
  · unfold providersWrite? at hw
    split at hw <;> cases hw
    simp at hpath

end Written

/-! ### The consolidated policy -/

/-- **When a section that one derived policy has survives.**  Accepted policies are
consolidated; and a section of the building blocks that one derived policy has once, and no other
policy has, is in the consolidated policy with all it holds exactly when merging knows all it
holds. -/
theorem blockSections_consolidate_iff {base tree v : Value} {before after : List Value}
    (name : String) (h : ∀ policy ∈ base :: (before ++ tree :: after), IsAccepted policy)
    (hone : blockSections (rootOf tree) name = [v])
    (hothers : ∀ other ∈ base :: (before ++ after), blockSections (rootOf other) name = []) :
    ∃ root, consolidate (base :: (before ++ tree :: after)) =
        .ok (.object [(rootName, .object root)]) ∧
      ((∃ w, blockSections root name = [w] ∧ HoldSame v w) ↔ IsCarried name v) := by
  obtain ⟨root, hroot, hsections⟩ := consolidate_eq_ok fun policy hpolicy =>
    (h policy hpolicy).policyRoot?
  refine ⟨root, hroot, ?_⟩
  rw [List.forall_mem_cons] at hothers
  have hwrites : ∀ other ∈ before.map rootOf ++ after.map rootOf, ∀ w ∈ writesOf other,
      w.path ≠ ["BuildingBlocks", name] := by
    rw [← List.map_append]
    exact List.forall_mem_map.mpr fun other hother w =>
      path_ne_of_blockSections_eq_nil (hothers.2 other hother)
  obtain ⟨hwritten, hmissing⟩ := blockSections_foldl_mergePolicy (rootOf tree) hothers.1
    hwrites
  have hblocks : blockSections root name = blockSections ((before.map rootOf ++
      rootOf tree :: after.map rootOf).foldl mergePolicy (rootOf base)) name := by
    refine blockSections_congr ?_
    rw [hsections _ (by decide) (by decide), List.map_append, List.map_cons]
  rw [hblocks, ← exists_holdSame_iff hone]
  constructor
  · rintro ⟨w, hw, hsame⟩
    by_contra hnone
    by_cases hany : ∃ x ∈ writesOf (rootOf tree), x.path = ["BuildingBlocks", name]
    · obtain ⟨x, hx, hpath⟩ := hany
      rw [hwritten x hx hpath] at hw
      cases hw
      exact hnone ⟨x, hx, hpath, hsame⟩
    · rw [hmissing fun x hx hpath => hany ⟨x, hx, hpath⟩] at hw
      cases hw
  · rintro ⟨w, hw, hpath, hsame⟩
    exact ⟨_, hwritten w hw hpath, hsame⟩

/-- A policy with some building blocks. -/
def blocksPolicy (policyId : String) (sections : Fields Value) : Value :=
  .object [(rootName, .object [("@_PolicyId", .text policyId), ("@_TenantId", .text "contoso"),
    ("BuildingBlocks", .object sections)])]

/-- Types of claims in their section. -/
def claimsSchema : Value :=
  .object [("ClaimType", .list [.object [("@_Id", .text "email")],
    .object [("@_Id", .text "phone")]])]

/-- A definition of a client, in a section that merging does not know. -/
def clientDefinitions : Value :=
  .object [("ClientDefinition", .object [("@_Id", .text "default")])]

theorem blockSections_consolidate_claims :
    ∃ root, consolidate [blocksPolicy "Base" [("ClientDefinitions", clientDefinitions)],
        blocksPolicy "Derived" [("ClaimsSchema", claimsSchema)]] =
          .ok (.object [(rootName, .object root)]) ∧
      ∃ w, blockSections root "ClaimsSchema" = [w] ∧ HoldSame claimsSchema w := by
  have hvalid : ∀ policy ∈ blocksPolicy "Base" [("ClientDefinitions", clientDefinitions)] ::
      ([] ++ blocksPolicy "Derived" [("ClaimsSchema", claimsSchema)] :: []),
        IsAccepted policy := by
    simp only [List.nil_append, List.forall_mem_cons, List.not_mem_nil, false_imp_iff,
      implies_true, and_true]
    exact ⟨⟨⟨"", by decide⟩, by decide⟩,
      ⟨⟨"", by decide⟩, by decide⟩⟩
  obtain ⟨root, hroot, hiff⟩ := blockSections_consolidate_iff (v := claimsSchema)
    "ClaimsSchema" hvalid rfl (by decide)
  refine ⟨root, hroot, hiff.mpr (Or.inl ⟨"ClaimType", by decide, fun other hother => ?_,
    by decide, by decide⟩)⟩
  simp [allNamed, Fields.get?, Ne.symm hother]

/-- **A section is lost** when a derived policy alone has it and merging does not know it. -/
theorem section_lost :
    (∀ policy ∈ [blocksPolicy "Base" [("ClaimsSchema", claimsSchema)],
        blocksPolicy "Derived" [("ClientDefinitions", clientDefinitions)]], IsAccepted policy) ∧
      blockSections (rootOf (blocksPolicy "Derived" [("ClientDefinitions", clientDefinitions)]))
        "ClientDefinitions" = [clientDefinitions] ∧
      blockSections (rootOf (blocksPolicy "Base" [("ClaimsSchema", claimsSchema)]))
        "ClientDefinitions" = [] ∧
      ∃ root, consolidate [blocksPolicy "Base" [("ClaimsSchema", claimsSchema)],
          blocksPolicy "Derived" [("ClientDefinitions", clientDefinitions)]] =
            .ok (.object [(rootName, .object root)]) ∧
        blockSections root "ClientDefinitions" = [] := by
  refine ⟨?_, rfl, by decide, _, rfl, by decide⟩
  simp only [List.forall_mem_cons, List.not_mem_nil, false_imp_iff, implies_true, and_true]
  exact ⟨⟨⟨"", by decide⟩, by decide⟩,
    ⟨⟨"", by decide⟩, by decide⟩⟩

end Policy
end TrustFramework
