import TrustFramework.Proofs.Trace.Filing

/-!
# What a run finds

Groups are interpreted, and what is found is put into the statebag and into the open step, or
into one that it opens.  Groups that could not be interpreted are no finding.

## Main definitions

* `Rebuilding.found?`, `Rebuilding.found` — the findings of an occurrence and of a run.
* `Statebag.after` — a statebag after findings.
* `Rebuilding.IsTaker` — the step that takes findings.

## Main results

* `Rebuilding.undergo_of_found?` — **what findings do to the open step and the statebag.**
* `Rebuilding.undergo_of_found?_eq_none` — **what an occurrence without findings does.**
* `Rebuilding.statebag_behind` — the statebag of a run is that after all that was found.
-/

namespace TrustFramework

/-- A statebag after findings.  Its entries start over with a step; claims stay. -/
def Statebag.after (b : Statebag) (f : Findings) : Statebag :=
  ((if f.createStep then b.cleared else b).update f.statebagUpdates).updateClaims f.claimsUpdates

/-- A step about which nothing is known yet. -/
structure TraceStep.IsFresh (s : TraceStep) : Prop where
  result : s.result = .success
  errorMessage : s.errorMessage = none
  interaction : s.interaction = none

theorem TraceStep.IsFresh.placed {s : TraceStep} (h : s.IsFresh) : s.placed.IsFresh := by
  unfold TraceStep.placed
  split
  · exact ⟨h.result, h.errorMessage, h.interaction⟩
  · exact h

/-- A step with the facts of findings, and with their outcome if they close it. -/
def Findings.takenInto (f : Findings) (claims : Fields String) (s : TraceStep) : TraceStep :=
  if f.finalizeStep then Rebuilding.concluded f (f.applyTo claims s) else f.applyTo claims s

namespace Rebuilding

@[simp] theorem header_takenInto (f : Findings) (claims : Fields String) (s : TraceStep) :
    (f.takenInto claims s).header = s.header := by
  unfold Findings.takenInto
  split
  · rw [header_concluded, Findings.header_applyTo]
  · rw [Findings.header_applyTo]

/-! ### Findings -/

/-- The findings of an occurrence, if it is a group that could be interpreted. -/
def found? (t : Rebuilding) : Occurrence → Option Findings
  | .event log (.group g) =>
    match (t.registry.interpret (t.contextOf log g)).2 with
    | .done f _ => if f.success then some f else none
    | _ => none
  | _ => none

/-- The findings in the course of some occurrences. -/
def found (t : Rebuilding) (past : List Occurrence) : List Findings :=
  along (fun t o => (t.found? o).toList) t past

theorem found_append_singleton (t : Rebuilding) (past : List Occurrence) (o : Occurrence) :
    t.found (past ++ [o]) = t.found past ++ ((past.foldl undergo t).found? o).toList :=
  along_append_singleton _ t past o

/-! ### What findings do -/

@[simp] theorem statebag_close (t : Rebuilding) : t.close.statebag = t.statebag := by
  obtain ⟨_, _, h⟩ := exists_close_eq t
  rw [h]

@[simp] theorem current_close (t : Rebuilding) : t.close.current = none := by
  obtain ⟨_, _, h⟩ := exists_close_eq t
  rw [h]

theorem statebag_openStep (t : Rebuilding) (f : Findings) (log : LogInput) (eventType : String) :
    (t.openStep f log eventType).statebag =
      (t.statebag.cleared.update f.statebagUpdates).updateClaims f.claimsUpdates := by
  show (t.close.statebag.cleared.update f.statebagUpdates).updateClaims f.claimsUpdates = _
  rw [statebag_close]

theorem statebag_advance (t : Rebuilding) (f : Findings) (log : LogInput) (eventType : String) :
    (t.advance f log eventType).statebag = t.statebag.after f := by
  unfold advance Statebag.after
  cases f.createStep with
  | true => exact statebag_openStep t f log eventType
  | false => rfl

/-- A step that is opened is a fresh one with the outcome of the findings that open it. -/
theorem exists_fresh (t : Rebuilding) (f : Findings) (log : LogInput) (eventType : String) :
    ∃ s : TraceStep, s.IsFresh ∧ s.sequence = t.sequence ∧
      (t.openStep f log eventType).current = some (outcome f s) := by
  have hsequence : (t.openStep f log eventType).current.map TraceStep.sequence =
      some (t.sequence : Int) := by
    obtain ⟨s, hcurrent, hheader, -⟩ := openStep_spec t f log eventType
    rw [hcurrent]
    exact congrArg (fun header => some header.sequence) hheader
  have hfresh {s : TraceStep} (h : s.IsFresh) (handler : Option String) :
      TraceStep.IsFresh { s with actionHandler := handler } :=
    ⟨h.result, h.errorMessage, h.interaction⟩
  refine ⟨_, ?_, ?_, rfl⟩
  · split
    · exact hfresh (TraceStep.IsFresh.placed ⟨rfl, rfl, rfl⟩) _
    · exact TraceStep.IsFresh.placed ⟨rfl, rfl, rfl⟩
  · exact (congrArg StepHeader.sequence (header_outcome f _)).symm.trans
      (Option.some.inj hsequence)

/-- The step that takes findings, if there is one, with their outcome. -/
inductive IsTaker (f : Findings) (number : Nat) (current : Option TraceStep) :
    Option TraceStep → Prop
  /-- A fresh one that they open, with the next number. -/
  | fresh {s : TraceStep} (hcreate : f.createStep = true) (hfresh : s.IsFresh)
      (hsequence : s.sequence = number) : IsTaker f number current (some (outcome f s))
  /-- The one that is open. -/
  | current (hcreate : f.createStep = false) :
      IsTaker f number current (current.map (outcomeOfOpen f))

theorem current_advance (t : Rebuilding) (f : Findings) (log : LogInput) (eventType : String) :
    ∃ taker?, IsTaker f t.sequence t.current taker? ∧
      (t.advance f log eventType).current =
        taker?.map (f.applyTo (t.statebag.after f).claims) := by
  rw [← statebag_advance t f log eventType]
  unfold advance
  cases hcreate : f.createStep with
  | true =>
    obtain ⟨s, hfresh, hsequence, hcurrent⟩ := exists_fresh t f log eventType
    refine ⟨some (outcome f s), .fresh hcreate hfresh hsequence, ?_⟩
    rw [← hcurrent]
    rfl
  | false => exact ⟨t.current.map (outcomeOfOpen f), .current hcreate, rfl⟩

/-- Findings that close a step file it with their outcome. -/
theorem closing_concludeOpen (t : Rebuilding) (f : Findings) :
    (t.concludeOpen f).closing =
      (t.current.map fun s => Filing.closed (t.snapshot (concluded f s)).located).toList := by
  rw [closing, concludeOpen, Option.map_map]
  rfl

/-! ### What an occurrence does to the open step -/

theorem found?_eq_some {t : Rebuilding} {o : Occurrence} {f : Findings} (h : t.found? o = some f) :
    f.success = true ∧ ∃ log g moved, o = .event log (.group g) ∧
      (t.registry.interpret (t.contextOf log g)).2 = .done f moved := by
  unfold found? at h
  split at h
  · next log g =>
    split at h
    · next f' moved hread =>
      split at h
      · next hsuccess =>
        obtain rfl := Option.some.inj h
        exact ⟨hsuccess, log, g, moved, rfl, hread⟩
      · cases h
    · cases h
  · cases h

/-- **Findings are taken** by the open step, or by the one that they open.  They close the one
that was open if they open another, and the one that took them if they close it. -/
theorem undergo_of_found? {t : Rebuilding} {o : Occurrence} {f : Findings}
    (h : t.found? o = some f) :
    (t.undergo o).statebag = t.statebag.after f ∧ ∃ taker?, IsTaker f t.sequence t.current taker? ∧
      let taken? := taker?.map (f.takenInto (t.statebag.after f).claims)
      (t.undergo o).current = (if f.finalizeStep then none else taken?) ∧
      t.filed o = (if f.createStep then t.closing else []) ++
        (if f.finalizeStep then
          (taken?.map fun s => Filing.closed ((t.undergo o).snapshot s).located).toList
        else []) := by
  obtain ⟨hsuccess, log, g, moved, rfl, hread⟩ := found?_eq_some h
  -- what interpreting the group changes, before its findings are applied
  let u : Rebuilding :=
    { t with
      registry := (t.registry.interpret (t.contextOf log g)).1
      journeys := moveTo t.journeys moved }
  have hundergo : t.undergo (.event log (.group g)) = u.apply f log log.type :=
    takeGroup_of_done hread
  have hfiled : t.filed (.event log (.group g)) = u.filedBy f log log.type := by
    rw [filed, filedByGroup, hread]
  obtain ⟨taker?, htaker, hcurrent⟩ := current_advance u f log log.type
  have hstatebag := statebag_advance u f log log.type
  rw [hundergo, hfiled, apply_of_success hsuccess, filedBy, if_pos hsuccess]
  cases hfinalize : f.finalizeStep with
  | false =>
    have htaken : f.takenInto (t.statebag.after f).claims = f.applyTo (t.statebag.after f).claims := by
      funext s
      exact if_neg (by simp [hfinalize])
    refine ⟨hstatebag, taker?, htaker, ?_, rfl⟩
    rw [htaken]
    exact hcurrent
  | true =>
    have htaken : f.takenInto (t.statebag.after f).claims =
        concluded f ∘ f.applyTo (t.statebag.after f).claims := by
      funext s
      exact if_pos hfinalize
    refine ⟨(statebag_close _).trans hstatebag, taker?, htaker, current_close _, ?_⟩
    -- the step is filed with the statebag that is left when it is closed
    have hsnapshot : ((u.advance f log log.type).concludeOpen f).close.snapshot =
        (u.advance f log log.type).snapshot := by
      funext s
      rw [snapshot, statebag_close]
      rfl
    rw [if_pos rfl, if_pos rfl, if_pos rfl, htaken, hsnapshot, closing_concludeOpen, hcurrent,
      Option.map_map, Option.map_map]
    rfl

/-- A group without findings leaves the statebag and all steps as they are. -/
theorem takeGroup_of_found?_eq_none {t : Rebuilding} {log : LogInput} {g : HandlerGroup}
    (h : t.found? (.event log (.group g)) = none) :
    t.filedByGroup log g = [] ∧ ∃ registry journeys errors,
      t.takeGroup log log.type g = { t with registry, journeys, errors } := by
  have hpassed (hread : ∀ f moved, (t.registry.interpret (t.contextOf log g)).2 ≠ .done f moved) :
      ∃ registry journeys errors,
        t.takeGroup log log.type g = { t with registry, journeys, errors } := by
    obtain ⟨registry, errors, htake⟩ : ∃ registry errors,
        t.takeGroup log log.type g = { t with registry, errors } := takeGroup_of_not_done hread
    exact ⟨registry, t.journeys, errors, htake⟩
  unfold filedByGroup
  cases hread : (t.registry.interpret (t.contextOf log g)).2 with
  | skipped => exact ⟨rfl, hpassed (by simp [hread])⟩
  | failed => exact ⟨rfl, hpassed (by simp [hread])⟩
  | done f moved =>
    have hfailed : f.success = false := by
      rw [found?, hread] at h
      simpa using h
    refine ⟨if_neg (by simp [hfailed]), ?_⟩
    rw [takeGroup_of_done hread]
    obtain ⟨errors, happly⟩ := exists_apply_of_not_success
      { t with
        registry := (t.registry.interpret (t.contextOf log g)).1
        journeys := moveTo t.journeys moved } log log.type hfailed
    exact ⟨_, _, errors, happly⟩

/-- An exception files the open step with its message. -/
theorem closing_failOpen (t : Rebuilding) (message : String) :
    (t.failOpen message).closing =
      (t.current.map fun s =>
        Filing.closed (t.snapshot (s.withError message none)).located).toList := by
  rw [closing, failOpen, Option.map_map]
  rfl

/-- What finds nothing leaves the statebag as it is, and changes nothing of the open step but the
change of state noted in it, unless an exception closes it. -/
theorem undergo_of_found?_eq_none {t : Rebuilding} {o : Occurrence} (h : t.found? o = none) :
    (t.undergo o).statebag = t.statebag ∧
      ((∃ log message, o = .fatal log message ∧ (t.undergo o).current = none) ∨
        t.filed o = [] ∧ ((t.undergo o).current = t.current ∨ ∃ log c,
          o = .event log (.change c) ∧
            (t.undergo o).current = t.current.map (noteTransition c.eventName))) := by
  cases o with
  | malformed line => exact ⟨rfl, Or.inr ⟨rfl, Or.inl rfl⟩⟩
  | fatal log message =>
    exact ⟨statebag_close (t.failOpen message),
      Or.inl ⟨log, message, rfl, current_close (t.failOpen message)⟩⟩
  | event log e =>
    cases e with
    | change c => exact ⟨rfl, Or.inr ⟨rfl, Or.inr ⟨log, c, rfl, rfl⟩⟩⟩
    | group g =>
      obtain ⟨hfiled, registry, journeys, errors, htake⟩ := takeGroup_of_found?_eq_none h
      rw [undergo_group, htake]
      exact ⟨rfl, Or.inr ⟨hfiled, Or.inl rfl⟩⟩

/-! ### The statebag of a run -/

variable {registry : Registry} {settings : TraceSettings} {logs : List LogInput}

theorem found_behind_append_singleton (past : List Occurrence) (o : Occurrence) :
    (behind registry settings logs []).found (past ++ [o]) =
      (behind registry settings logs []).found past ++
        ((behind registry settings logs past).found? o).toList :=
  found_append_singleton _ past o

/-- **The statebag of a run is that after all that was found in it.** -/
theorem statebag_behind (past : List Occurrence) :
    (behind registry settings logs past).statebag =
      ((behind registry settings logs []).found past).foldl Statebag.after {} := by
  refine behind_induction (motive := fun past t => t.statebag =
    ((behind registry settings logs []).found past).foldl Statebag.after {}) rfl ?_ past
  intro past o ih
  rw [found_behind_append_singleton, List.foldl_append, ← ih]
  cases hfound : (behind registry settings logs past).found? o with
  | none => exact (undergo_of_found?_eq_none hfound).1
  | some f => exact (undergo_of_found? hfound).1

end Rebuilding
end TrustFramework
