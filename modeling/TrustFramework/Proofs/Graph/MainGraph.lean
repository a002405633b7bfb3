import TrustFramework.Proofs.Fallible
import TrustFramework.Proofs.Graph.Drawing
import TrustFramework.Proofs.Union

/-!
# The main graph of a policy

Each journey of a policy has a graph, and one of them is the main one: that of the journey asked
for, else that of the journey that the relying party starts with, else that of the last journey.
A journey that is asked for in vain is warned of, and the warning says that the last journey is
used.  It is given before the journey of the relying party is tried, so that it is wrong where that
one is found and is not the last.

## Main definitions

* `JourneyGraphs.unfound` — the warning of a journey that is not there.
* `Atlas.HasStandIn` — the journey of the relying party stands in for one that is not there.

## Main results

* `JourneyGraphs.choose_eq` — what is chosen of some candidates, and what is warned of.
* `Atlas.isWarning_of_mem_drawJourney` — drawing a journey warns of nothing else than sub-journeys.
* `Atlas.main_graph_of_journeys` — **the warning tells the main graph unless a journey stands in.**
* `Atlas.stand_in_for_unfound` — a policy where it does not.
-/

namespace TrustFramework

namespace Fields

variable {α β : Type}

/-- The value given to a name last, where all values are changed. -/
theorem last?_map (f : α → β) (entries : List (String × α)) (name : String) :
    last? (entries.map fun entry => (entry.1, f entry.2)) name = (last? entries name).map f := by
  unfold last?
  rw [List.filter_map, List.getLast?_map, Option.map_map, Option.map_map]
  rfl

/-- The last entry of all gives the last value to its name. -/
theorem last?_of_getLast? {entries : List (String × α)} {last : String × α}
    (h : entries.getLast? = some last) : last? entries last.1 = some last.2 := by
  obtain ⟨earlier, rfl⟩ := List.getLast?_eq_some_iff.mp h
  rw [last?_append, last?_cons, if_pos rfl]
  rfl

theorem exists_last?_of_mem {entries : List (String × α)} {name : String}
    (h : name ∈ entries.map Prod.fst) : ∃ v, last? entries name = some v := by
  obtain ⟨entry, hentry, rfl⟩ := List.mem_map.mp h
  have hmem : entry ∈ entries.filter fun e => e.1 = entry.1 :=
    List.mem_filter.mpr ⟨hentry, decide_eq_true rfl⟩
  obtain ⟨last, hlast⟩ := Option.isSome_iff_exists.mp
    (List.getLast?_isSome.mpr (List.ne_nil_of_mem hmem))
  exact ⟨last.2, by rw [last?, hlast, Option.map_some]⟩

/-- Fields made of pairs have the last value of every name. -/
theorem get?_ofPairs (pairs : List (String × α)) (name : String) :
    (ofPairs pairs).get? name = last? pairs name := by
  rw [ofPairs, get?_update, get?_nil, Option.or_none]

/-- They have every name once, where it comes first. -/
theorem names_ofPairs (pairs : List (String × α)) :
    (ofPairs pairs).names = distinct (pairs.map Prod.fst) :=
  names_update [] pairs

end Fields

/-! ### Candidates -/

namespace JourneyGraphs

/-- The warning of a journey that is not there. -/
def unfound (id : String) : String := "UserJourney '" ++ id ++ "' not found; using the last journey"

/-- The first candidate that is known is chosen, else the last journey, and each one before it is
warned of. -/
theorem choose_eq (known : List String) (last : String) (candidates : List String) :
    choose known last candidates = ((candidates.find? known.contains).getD last,
      (candidates.takeWhile fun id => !known.contains id).map unfound) := by
  induction candidates with
  | nil => rfl
  | cons id candidates ih =>
    rw [choose]
    cases hid : known.contains id with
    | true => simp only [List.find?_cons, List.takeWhile_cons, hid]; rfl
    | false => simp only [List.find?_cons, List.takeWhile_cons, hid, ih]; rfl

end JourneyGraphs

namespace Atlas

variable {atlas : Atlas}

open JourneyGraphs (choose choose_eq unfound)

/-- The journeys whose graph may be the main one, the first one first. -/
def candidates (atlas : Atlas) (wanted : Option String) : List String :=
  (wanted.filter fun id => !id.isEmpty).toList ++ atlas.defaultJourney?.toList

/-- A journey is asked for that the policy does not have, and the relying party starts with one that
it has, which is not the last. -/
def HasStandIn (atlas : Atlas) (wanted : Option String) (last : String) : Prop :=
  ∃ id other, wanted = some id ∧ id ≠ "" ∧ id ∉ atlas.journeyIds ∧
    atlas.defaultJourney? = some other ∧ other ∈ atlas.journeyIds ∧ other ≠ last

theorem hasStandIn_iff {wanted : Option String} {last : String} :
    atlas.HasStandIn wanted last ↔
      ∃ id other, (wanted.filter fun id => !id.isEmpty) = some id ∧
        atlas.defaultJourney? = some other ∧ id ∉ atlas.journeyIds ∧
          other ∈ atlas.journeyIds ∧ other ≠ last := by
  unfold HasStandIn
  simp only [Option.filter_eq_some_iff, Bool.not_eq_true', String.isEmpty_eq_false_iff]
  constructor
  · rintro ⟨id, other, hwanted, hid, hunknown, hdefault, hknown, hne⟩
    exact ⟨id, other, ⟨hwanted, hid⟩, hdefault, hunknown, hknown, hne⟩
  · rintro ⟨id, other, ⟨hwanted, hid⟩, hdefault, hunknown, hknown, hne⟩
    exact ⟨id, other, hwanted, hid, hunknown, hdefault, hknown, hne⟩

/-- The last journey is chosen whenever one was not found, unless another one stands in for it. -/
theorem choose_eq_last_iff (atlas : Atlas) (wanted : Option String) (last : String) :
    ((choose atlas.journeyIds last (atlas.candidates wanted)).2 ≠ [] →
        (choose atlas.journeyIds last (atlas.candidates wanted)).1 = last) ↔
      ¬ atlas.HasStandIn wanted last := by
  rw [hasStandIn_iff, choose_eq, candidates]
  generalize (wanted.filter fun id => !id.isEmpty) = asked
  cases asked with
  | none =>
    cases atlas.defaultJourney? with
    | none => simp
    | some other => by_cases hother : other ∈ atlas.journeyIds <;> simp [hother]
  | some id =>
    cases atlas.defaultJourney? with
    | none => by_cases hid : id ∈ atlas.journeyIds <;> simp [hid]
    | some other =>
      by_cases hid : id ∈ atlas.journeyIds <;>
        by_cases hother : other ∈ atlas.journeyIds <;> simp [hid, hother]

/-- What is chosen is a journey. -/
theorem choose_mem {wanted : Option String} {last : String} (h : last ∈ atlas.journeyIds) :
    (choose atlas.journeyIds last (atlas.candidates wanted)).1 ∈ atlas.journeyIds := by
  rw [choose_eq]
  cases hfound : (atlas.candidates wanted).find? atlas.journeyIds.contains with
  | none => exact h
  | some id => exact List.contains_iff_mem.mp (List.find?_some hfound)

/-! ### Warnings -/

/-- Drawing a journey warns of nothing else than sub-journeys. -/
theorem isWarning_of_mem_drawJourney {journey : Value} {warning : String}
    (h : warning ∈ (atlas.drawJourney journey).warnings) : Drawing.IsWarning warning := by
  refine drawSteps_induction (motive := fun d => ∀ w ∈ d.warnings, Drawing.IsWarning w)
    (fun _ _ h => h) (fun _ _ _ _ h => h) (fun d w hw h => ?_) _ _ _ _ (by simp) warning h
  exact List.forall_mem_append.mpr ⟨h, by simpa using hw⟩

/-- The warning of a journey is no warning of a sub-journey. -/
theorem not_isWarning_unfound (id : String) : ¬ Drawing.IsWarning (unfound id) := by
  have hhead (s t : String) (h : s ≠ "") : (s ++ t).toList.head? = s.toList.head? := by
    cases hs : s.toList with
    | nil => exact absurd (String.toList_eq_nil_iff.mp hs) h
    | cons c cs => rw [String.toList_append, hs]; rfl
  intro h
  generalize hwarning : unfound id = warning at h
  have heq := congrArg (fun s => s.toList.head?) hwarning
  cases h <;> simp only [unfound, String.append_assoc] at heq <;>
    rw [hhead _ _ (by decide), hhead _ _ (by decide)] at heq <;> exact absurd heq (by decide)

/-! ### All journeys -/

/-- How the graphs of all journeys are drawn, where there are some and all of them end. -/
theorem drawAll_eq {last : String × Value} (hlast : atlas.journeys.getLast? = some last)
    (wanted : Option String) : atlas.drawAll wanted =
      if atlas.journeys.all fun j => atlas.ends j.2 then
        .ok
          { main := (choose atlas.journeyIds last.1 (atlas.candidates wanted)).1
            subgraphs :=
              Fields.ofPairs (atlas.journeys.map fun j => (j.1, (atlas.drawJourney j.2).graph))
            warnings := (atlas.journeys.flatMap fun j => (atlas.drawJourney j.2).warnings) ++
              (choose atlas.journeyIds last.1 (atlas.candidates wanted)).2 }
      else .error .endlessJourney := by
  unfold drawAll
  rw [hlast]
  simp only [List.map_map, List.flatMap_map]
  rfl

/-- **The warning tells the main graph unless a journey stands in.**  The graphs are drawn exactly
if the sub-journeys inside every journey come to an end.  There is one for each name of a journey,
that of the last journey of this name, and the main graph is one of them.  It is that of the last
journey, whenever a warning says so, if and only if the relying party does not start with another
one in place of a journey that was asked for in vain. -/
theorem main_graph_of_journeys {last : String × Value}
    (hlast : atlas.journeys.getLast? = some last) (wanted : Option String) :
    ((∃ graphs, atlas.drawAll wanted = .ok graphs) ↔
      ∀ j ∈ atlas.journeys, atlas.ends j.2 = true) ∧
    ∀ graphs, atlas.drawAll wanted = .ok graphs →
      graphs.subgraphs.names = distinct atlas.journeyIds ∧
      (∀ id journey, Fields.last? atlas.journeys id = some journey →
        graphs.subgraphs.get? id = some (atlas.drawJourney journey).graph) ∧
      graphs.main ∈ atlas.journeyIds ∧
      graphs.subgraphs.get? graphs.main = some graphs.mainGraph ∧
      (((∃ id, unfound id ∈ graphs.warnings) →
          graphs.main = last.1 ∧ graphs.mainGraph = (atlas.drawJourney last.2).graph) ↔
        ¬ atlas.HasStandIn wanted last.1) := by
  rw [drawAll_eq hlast, ← List.all_eq_true]
  cases (atlas.journeys.all fun j => atlas.ends j.2) with
  | false => exact ⟨by simp, fun graphs h => by cases h⟩
  | true =>
    refine ⟨by simp, fun graphs h => ?_⟩
    obtain rfl := Except.ok.inj h
    have hget (id : String) (journey : Value)
        (hid : Fields.last? atlas.journeys id = some journey) :
        (Fields.ofPairs (atlas.journeys.map fun j => (j.1, (atlas.drawJourney j.2).graph))).get?
          id = some (atlas.drawJourney journey).graph := by
      rw [Fields.get?_ofPairs,
        Fields.last?_map (fun journey => (atlas.drawJourney journey).graph), hid, Option.map_some]
    have hmain : (choose atlas.journeyIds last.1 (atlas.candidates wanted)).1 ∈
        atlas.journeyIds :=
      choose_mem (List.mem_map_of_mem (List.mem_of_getLast? hlast))
    have hlastGet := hget last.1 last.2 (Fields.last?_of_getLast? hlast)
    refine ⟨?_, hget, hmain, ?_, ?_⟩
    · rw [Fields.names_ofPairs, List.map_map]
      rfl
    · obtain ⟨journey, hjourney⟩ := Fields.exists_last?_of_mem hmain
      rw [JourneyGraphs.mainGraph, hget _ _ hjourney, Option.getD_some]
    · rw [← choose_eq_last_iff]
      -- only candidates that were passed over are warned of like this
      have hwarned : (∃ id, unfound id ∈
          (atlas.journeys.flatMap fun j => (atlas.drawJourney j.2).warnings) ++
            (choose atlas.journeyIds last.1 (atlas.candidates wanted)).2) ↔
          (choose atlas.journeyIds last.1 (atlas.candidates wanted)).2 ≠ [] := by
        constructor
        · rintro ⟨id, hid⟩
          rcases List.mem_append.mp hid with hid | hid
          · obtain ⟨j, -, hid⟩ := List.mem_flatMap.mp hid
            exact absurd (isWarning_of_mem_drawJourney hid) (not_isWarning_unfound id)
          · exact List.ne_nil_of_mem hid
        · intro hne
          obtain ⟨warning, hmem⟩ := List.exists_mem_of_ne_nil _ hne
          rw [choose_eq] at hmem
          obtain ⟨id, hid, rfl⟩ := List.mem_map.mp hmem
          refine ⟨id, List.mem_append_right _ ?_⟩
          rw [choose_eq]
          exact List.mem_map_of_mem hid
      rw [hwarned]
      refine imp_congr_right fun _ => ⟨And.left, fun heq => ⟨heq, ?_⟩⟩
      dsimp only [JourneyGraphs.mainGraph]
      rw [heq, hlastGet, Option.getD_some]

/-- A policy with a journey of one step, an empty one behind it, and a journey that the relying
party starts with. -/
def ofSignIn (start : Fields Value) : Atlas where
  root := .object
    [("UserJourneys", .object
      [("UserJourney", .list
        [.object
          [("@_Id", .text "SignIn"),
            ("OrchestrationSteps", .object
              [("OrchestrationStep", .list
                [.object [("@_Order", .text "1"), ("@_Type", .text "SendClaims")]])])],
          .object [("@_Id", .text "Reset")]])]),
      ("RelyingParty", .object start)]

/-- Where the relying party names no journey, the last one is used, as the warning says. -/
theorem main_graph_of_last : (ofSignIn []).journeys.getLast?.map Prod.fst = some "Reset" ∧
    ∃ graphs, (ofSignIn []).drawAll (some "SignUp") = .ok graphs ∧
      ((∃ id, unfound id ∈ graphs.warnings) → graphs.main = "Reset") := by
  have hname : (ofSignIn []).journeys.getLast?.map Prod.fst = some "Reset" := by decide
  obtain ⟨last, hlast, hreset⟩ := Option.map_eq_some_iff.mp hname
  obtain ⟨hdrawn, hgraphs⟩ := main_graph_of_journeys hlast (some "SignUp")
  obtain ⟨graphs, hok⟩ := hdrawn.mpr (by decide +kernel)
  refine ⟨hname, graphs, hok, fun hwarned => hreset ▸ ?_⟩
  refine ((hgraphs graphs hok).2.2.2.2.mpr ?_ hwarned).1
  rintro ⟨-, other, -, -, -, hdefault, -⟩
  have hnone : (ofSignIn []).defaultJourney? = none := by decide
  rw [hnone] at hdefault
  cases hdefault

/-- **A warning that does not tell the main graph**: the last journey is said to be used, and the
graph is that of the journey that the relying party starts with. -/
theorem stand_in_for_unfound :
    ¬ ∀ (atlas : Atlas) (wanted : Option String) (last : String × Value) (graphs : JourneyGraphs),
      atlas.journeys.getLast? = some last → atlas.drawAll wanted = .ok graphs →
      (∃ id, unfound id ∈ graphs.warnings) →
      graphs.mainGraph = (atlas.drawJourney last.2).graph := by
  intro h
  let atlas := ofSignIn [("DefaultUserJourney", .object [("@_ReferenceId", .text "SignIn")])]
  have hwarned : (atlas.drawAll (some "SignUp")).toOption.any (fun graphs =>
      graphs.warnings.contains (unfound "SignUp") && graphs.mainGraph.nodes.length == 3) =
        true := by
    decide +kernel
  have hempty : atlas.journeys.getLast?.map (fun last =>
      (atlas.drawJourney last.2).graph.nodes.length) = some 2 := by
    decide +kernel
  obtain ⟨graphs, hok, hgraphs⟩ := exists_eq_ok_of_any hwarned
  obtain ⟨last, hlast, hnodes⟩ := Option.map_eq_some_iff.mp hempty
  obtain ⟨hmem, hthree⟩ := Bool.and_eq_true_iff.mp hgraphs
  rw [← h atlas _ last graphs hlast hok ⟨_, List.contains_iff_mem.mp hmem⟩, eq_of_beq hthree]
    at hnodes
  exact absurd hnodes (by decide)

end Atlas
end TrustFramework
