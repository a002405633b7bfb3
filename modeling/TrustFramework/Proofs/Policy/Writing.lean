import TrustFramework.Proofs.Policy.Consolidation

/-!
# Writing into containers

Merging a policy onto another one changes containers: the schema of claims, the user journeys,
the claims providers.  A container that is written into stands once afterwards.  Where several
stood before, or something around it stood several times, it is an empty one that is written
into, and what the others held is gone.

## Main definitions

* `Write`, `written` — a container with a change of its fields, and the policy after some.
* `writesOf` — what merging a policy writes.
* `replaces` — writing into one container puts an empty one in place of several on the way to
  another.

## Main results

* `get?_foldl_mergePolicy` — **the sections of merged policies are those of the first with all
  that merging the others writes.**
* `children_changeAt_of_apart`, `children_changeAt_self` — the elements below a container after
  one write.
* `replaces_changeAt` — **what is written into is not replaced again.**
-/

namespace TrustFramework
namespace Policy

open Policy.Node

/-- A container by its path, and what becomes of its fields. -/
structure Write where
  path : List String
  change : Fields Value → Fields Value

/-- A policy after some writes. -/
def written (target : Fields Value) (writes : List Write) : Fields Value :=
  writes.foldl (fun target w => changeAt target w.path w.change) target

/-! ### What merging a policy writes -/

/-- The elements of a section laid onto others, if there are any. -/
def sectionWrite? (source : Fields Value) (part : List String × String) : Option Write :=
  match children (.object source) (part.1 ++ [part.2]) with
  | [] => none
  | incoming => some ⟨part.1, fun fields =>
      fields.set part.2 (.list (mergeItems id? (itemsAt fields part.2) incoming))⟩

/-- The languages of the user interface laid onto others, if there are any. -/
def localizationWrite? (source : Fields Value) : Option Write :=
  match children (.object source) ["BuildingBlocks", "Localization"] with
  | .object incoming :: _ => some ⟨["BuildingBlocks", "Localization"], mergeLocalized incoming⟩
  | _ => none

/-- The claims providers laid onto others, if there are any. -/
def providersWrite? (source : Fields Value) : Option Write :=
  match children (.object source) ["ClaimsProviders", "ClaimsProvider"] with
  | [] => none
  | incoming => some ⟨["ClaimsProviders"], fun fields =>
      let existing := (itemsAt fields "ClaimsProvider").map fun p => (providerName? p, p)
      fields.set "ClaimsProvider" (.list ((mergeNamed existing incoming).map Prod.snd))⟩

/-- What merging a policy writes. -/
def writesOf (source : Fields Value) : List Write :=
  idMergedSections.filterMap (sectionWrite? source) ++ (localizationWrite? source).toList ++
    (providersWrite? source).toList

variable {target source : Fields Value} {name element : String}

theorem written_append (target : Fields Value) (writes more : List Write) :
    written target (writes ++ more) = written (written target writes) more :=
  List.foldl_append

theorem mergeSection_eq_written (target source : Fields Value) (part : List String × String) :
    mergeSection target source part.1 part.2 =
      written target (sectionWrite? source part).toList := by
  unfold mergeSection sectionWrite?
  cases children (.object source) (part.1 ++ [part.2]) <;> rfl

theorem mergeLocalization_eq_written (target source : Fields Value) :
    mergeLocalization target source = written target (localizationWrite? source).toList := by
  unfold mergeLocalization localizationWrite?
  split <;> simp_all [written]

theorem mergeProviders_eq_written (target source : Fields Value) :
    mergeProviders target source = written target (providersWrite? source).toList := by
  unfold mergeProviders providersWrite?
  cases children (.object source) ["ClaimsProviders", "ClaimsProvider"] <;> rfl

theorem foldl_mergeSection_eq_written (target source : Fields Value)
    (parts : List (List String × String)) :
    parts.foldl (fun target part => mergeSection target source part.1 part.2) target =
      written target (parts.filterMap (sectionWrite? source)) := by
  induction parts generalizing target with
  | nil => rfl
  | cons part parts ih =>
    rw [List.foldl_cons, ih, mergeSection_eq_written, ← written_append]
    cases h : sectionWrite? source part <;> simp [h]

/-- Merging a policy is writing, but for the relying party and new sections. -/
theorem mergePolicy_eq_written (target source : Fields Value) :
    mergePolicy target source = addNewSections
      (replaceRelyingParty (written target (writesOf source)) source) source := by
  simp only [mergePolicy]
  rw [foldl_mergeSection_eq_written, mergeLocalization_eq_written, mergeProviders_eq_written,
    ← written_append, ← written_append, writesOf, List.append_assoc]

/-- The containers that are written into. -/
theorem path_of_mem_writesOf {w : Write} (h : w ∈ writesOf source) :
    w.path ∈ ["BuildingBlocks", "Localization"] :: ["ClaimsProviders"] ::
      idMergedSections.map Prod.fst := by
  unfold writesOf at h
  simp only [List.mem_append, List.mem_filterMap, Option.mem_toList] at h
  rcases h with (⟨part, hpart, h⟩ | h) | h
  · have hpath : w.path = part.1 := by
      unfold sectionWrite? at h
      split at h <;> cases h
      rfl
    rw [hpath]
    exact List.mem_cons_of_mem _ (List.mem_cons_of_mem _ (List.mem_map_of_mem hpart))
  · unfold localizationWrite? at h
    split at h <;> cases h
    exact List.mem_cons_self
  · unfold providersWrite? at h
    split at h <;> cases h
    exact List.mem_cons_of_mem _ List.mem_cons_self

theorem path_ne_nil_of_mem_writesOf {w : Write} (h : w ∈ writesOf source) : w.path ≠ [] := by
  have hpaths : ∀ path ∈ ["BuildingBlocks", "Localization"] :: ["ClaimsProviders"] ::
      idMergedSections.map Prod.fst, path ≠ [] := by decide
  exact hpaths _ (path_of_mem_writesOf h)

/-! ### Policies after writing -/

/-- A section after writing is a matter of the section before. -/
theorem get?_written_congr {other : Fields Value} {writes : List Write}
    (hpaths : ∀ w ∈ writes, w.path ≠ []) (h : target.get? name = other.get? name) :
    Fields.get? (written target writes) name = Fields.get? (written other writes) name := by
  induction writes generalizing target other with
  | nil => exact h
  | cons w writes ih =>
    rw [List.forall_mem_cons] at hpaths
    refine ih hpaths.2 ?_
    obtain ⟨path, change⟩ := w
    match path, hpaths.1 with
    | first :: rest, _ =>
      by_cases hname : name = first
      · subst hname
        simp only [changeAt, Fields.get?_set_self, h]
      · simp only [get?_changeAt_of_ne hname, h]

theorem get?_mergePolicy_of_mem (h : name ∈ handledSections) (hparty : name ≠ "RelyingParty") :
    Fields.get? (mergePolicy target source) name =
      Fields.get? (written target (writesOf source)) name := by
  rw [mergePolicy_eq_written, get?_addNewSections_of_mem h, get?_replaceRelyingParty_of_ne hparty]

/-- **The sections of merged policies are those of the first with all that merging the others
writes.** -/
theorem get?_foldl_mergePolicy (h : name ∈ handledSections) (hparty : name ≠ "RelyingParty")
    (base : Fields Value) (derived : List (Fields Value)) :
    Fields.get? (derived.foldl mergePolicy base) name =
      Fields.get? (written base (derived.flatMap writesOf)) name := by
  induction derived generalizing base with
  | nil => rfl
  | cons source derived ih =>
    rw [List.foldl_cons, ih, List.flatMap_cons, written_append]
    refine get?_written_congr (fun w hw => ?_) (get?_mergePolicy_of_mem h hparty)
    obtain ⟨root, -, hw⟩ := List.mem_flatMap.mp hw
    exact path_ne_nil_of_mem_writesOf hw

/-! ### Containers -/

/-- The fields of the container at a path; whatever is no object on the way has none. -/
def containerAt (root : Fields Value) (path : List String) : Fields Value :=
  path.foldl (fun fields name => containerFields (fields.get? name)) root

/-- Whether writing into the container at a path puts an empty container in place of several on
the way to the other one. -/
def replaces (root : Fields Value) : (path other : List String) → Bool
  | name :: path, first :: other => name == first && match root.get? name with
    | some (.list _) => true
    | some (.object fields) => replaces fields path other
    | _ => false
  | _, _ => false

@[simp] theorem containerAt_nil (root : Fields Value) : containerAt root [] = root := rfl

@[simp] theorem containerAt_cons (root : Fields Value) (name : String) (path : List String) :
    containerAt root (name :: path) = containerAt (containerFields (root.get? name)) path := rfl

@[simp] theorem replaces_nil_right (root : Fields Value) (path : List String) :
    replaces root path [] = false := by
  cases path <;> rfl

theorem replaces_cons_of_ne {root : Fields Value} {first other : String}
    {path rest : List String} (h : first ≠ other) :
    replaces root (first :: path) (other :: rest) = false := by
  simp [replaces, h]

/-- In a list of containers, everything is replaced; elsewhere it is a matter of the
container. -/
theorem replaces_cons_self (root : Fields Value) (name : String) (path other : List String) :
    replaces root (name :: path) (name :: other) =
      (((root.get? name).any Value.isList) ||
        replaces (containerFields (root.get? name)) path other) := by
  have hnil : replaces [] path other = false := by
    cases path <;> cases other <;> simp [replaces, Fields.get?]
  rw [replaces]
  cases root.get? name with
  | none => simp [containerFields, hnil]
  | some v => cases v <;> simp [containerFields, hnil, Value.isList]

/-- A way that is replaced somewhere is replaced by what is written at its end. -/
theorem replaces_self_of_replaces {root : Fields Value} {path other : List String}
    (h : replaces root other path = true) : replaces root path path = true := by
  induction path generalizing root other with
  | nil => simp at h
  | cons name path ih =>
    match other with
    | [] => cases h
    | first :: other =>
      by_cases hname : first = name
      · subst hname
        rw [replaces_cons_self, Bool.or_eq_true] at h ⊢
        exact h.imp_right ih
      · rw [replaces_cons_of_ne hname] at h
        cases h

theorem containerFields_eq_nil_of_isList {v? : Option Value} (h : v?.any Value.isList = true) :
    containerFields v? = [] := by
  cases v? with
  | none => rfl
  | some v => cases v <;> simp_all [Value.isList, containerFields]

theorem children_cons (node : Value) (name : String) (path : List String) :
    children node (name :: path) = (named name node).flatMap fun v => children v path := by
  have hfoldl : ∀ (path : List String) (nodes : List Value),
      path.foldl (fun nodes name => nodes.flatMap (named name)) nodes =
        nodes.flatMap fun v => children v path := by
    intro path
    induction path with
    | nil => intro nodes; simp [children]
    | cons name path ih =>
      intro nodes
      rw [List.foldl_cons, ih, List.flatMap_assoc]
      refine List.flatMap_congr fun v _ => ?_
      rw [children, List.foldl_cons, List.flatMap_singleton, ih]
  rw [children, List.foldl_cons, List.flatMap_singleton, hfoldl]

/-- Below what has no fields there are no elements. -/
theorem children_of_containerFields_eq_nil {node : Value} {path : List String} (hpath : path ≠ [])
    (h : containerFields (some node) = []) : children node path = [] := by
  match path, hpath with
  | name :: path, _ =>
    rw [children_cons]
    cases node with
    | object fields =>
      rw [containerFields] at h
      rw [h]
      rfl
    | _ => rfl

/-- The elements below a section are those below its container, unless the section repeats. -/
theorem children_cons_of_isList_eq_false {root : Fields Value} {path : List String}
    (hpath : path ≠ []) (h : (root.get? name).any Value.isList = false) :
    children (.object root) (name :: path) =
      children (.object (containerFields (root.get? name))) path := by
  have hempty : children (.object []) path = [] := children_of_containerFields_eq_nil hpath rfl
  rw [children_cons, named]
  cases hget : root.get? name with
  | none => simp [asList, containerFields, hempty]
  | some v =>
    rw [Option.getD_some]
    cases v with
    | list items => simp [hget, Value.isList] at h
    | object fields => simp [asList, containerFields]
    | text s =>
      have hnone : children (.text s) path = [] := children_of_containerFields_eq_nil hpath rfl
      by_cases hs : s.isEmpty = true <;> simp [asList, containerFields, hs, hnone, hempty]
    | null => simp [asList, containerFields, hempty]
    | _ =>
      rw [asList, List.flatMap_singleton, children_of_containerFields_eq_nil hpath rfl]
      · exact hempty.symm
      all_goals simp

/-- The elements below a container, unless what is written into it would replace something. -/
theorem children_containerAt (root : Fields Value) (path : List String) {rest : List String}
    (hrest : rest ≠ []) : children (.object (containerAt root path)) rest =
      if replaces root path path then [] else children (.object root) (path ++ rest) := by
  induction path generalizing root with
  | nil => simp
  | cons name path ih =>
    rw [containerAt_cons, ih, replaces_cons_self]
    cases hlist : (root.get? name).any Value.isList with
    | true =>
      rw [containerFields_eq_nil_of_isList hlist,
        children_of_containerFields_eq_nil (by simp [hrest]) rfl]
      simp
    | false =>
      rw [List.cons_append, children_cons_of_isList_eq_false (by simp [hrest]) hlist,
        Bool.false_or]

/-! ### One write -/

/-- The elements below a container that was written into. -/
theorem children_changeAt_self (root : Fields Value) (path : List String)
    (f : Fields Value → Fields Value) (rest : List String) :
    children (.object (changeAt root path f)) (path ++ rest) =
      children (.object (f (containerAt root path))) rest := by
  induction path generalizing root with
  | nil => rfl
  | cons name path ih =>
    rw [changeAt, List.cons_append, children_cons, named, Fields.get?_set_self]
    simpa [asList] using ih _

/-- Two containers neither of which is around the other. -/
def Apart (path other : List String) : Prop := ¬ path <+: other ∧ ¬ other <+: path

instance (path other : List String) : Decidable (Apart path other) :=
  inferInstanceAs (Decidable (¬ path <+: other ∧ ¬ other <+: path))

/-- **The elements below a container after writing into another one**: they are gone if the write
replaces something on the way to them. -/
theorem children_changeAt_of_apart {path other : List String} (h : Apart path other)
    (root : Fields Value) (f : Fields Value → Fields Value) (rest : List String) :
    children (.object (changeAt root path f)) (other ++ rest) =
      if replaces root path other then [] else children (.object root) (other ++ rest) := by
  induction other generalizing root path with
  | nil => exact absurd List.nil_prefix h.2
  | cons name other ih =>
    match path with
    | [] => exact absurd List.nil_prefix h.1
    | first :: path =>
      by_cases hname : name = first
      · subst hname
        have happart : Apart path other :=
          ⟨fun hp => h.1 (List.cons_prefix_cons.mpr ⟨rfl, hp⟩),
            fun hp => h.2 (List.cons_prefix_cons.mpr ⟨rfl, hp⟩)⟩
        have hother : other ++ rest ≠ [] := by
          have : other ≠ [] := fun hnil => happart.2 (hnil ▸ List.nil_prefix)
          simp [this]
        have hset : named name (.object (changeAt root (name :: path) f)) =
            [.object (changeAt (containerFields (root.get? name)) path f)] := by
          rw [changeAt, named, Fields.get?_set_self]
          rfl
        rw [List.cons_append, children_cons, hset, List.flatMap_singleton, ih happart,
          replaces_cons_self]
        cases hlist : (root.get? name).any Value.isList with
        | true =>
          rw [containerFields_eq_nil_of_isList hlist,
            children_of_containerFields_eq_nil hother rfl]
          simp
        | false => rw [children_cons_of_isList_eq_false hother hlist, Bool.false_or]
      · rw [replaces_cons_of_ne (Ne.symm hname), List.cons_append, children_cons, children_cons,
          named, named, get?_changeAt_of_ne hname]
        rfl

/-- **What is written into is not replaced again**, and nothing around it. -/
theorem replaces_changeAt {path other : List String} (h : path <+: other → path = other)
    (root : Fields Value) (f : Fields Value → Fields Value) (next : List String) :
    replaces (changeAt root path f) next other =
      (replaces root next other && !replaces root path other) := by
  induction other generalizing root path next with
  | nil => simp
  | cons name other ih =>
    match path, next with
    | [], _ => cases h List.nil_prefix
    | first :: path, [] => rfl
    | first :: path, start :: next =>
      by_cases hstart : start = name
      · subst hstart
        by_cases hfirst : first = start
        · subst hfirst
          have hpath : path <+: other → path = other := fun hp =>
            (List.cons.inj (h (List.cons_prefix_cons.mpr ⟨rfl, hp⟩))).2
          rw [replaces_cons_self, replaces_cons_self, replaces_cons_self, changeAt,
            Fields.get?_set_self, containerFields, ih hpath]
          cases hlist : (root.get? first).any Value.isList with
          | true =>
            have hnil : replaces [] next other = false := by
              cases next <;> cases other <;> simp [replaces, Fields.get?]
            simp [containerFields_eq_nil_of_isList hlist, hnil, Value.isList]
          | false => simp [Value.isList]
        · rw [replaces_cons_of_ne hfirst, replaces_cons_self, replaces_cons_self,
            get?_changeAt_of_ne (Ne.symm hfirst)]
          simp
      · rw [replaces_cons_of_ne hstart, replaces_cons_of_ne hstart]
        rfl

end Policy
end TrustFramework
