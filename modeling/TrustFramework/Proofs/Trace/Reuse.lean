import TrustFramework.Proofs.Trace.Filing
import TrustFramework.Proofs.Trace.Orchestration

/-!
# Traces made one after the other

A registry that traced some logs has notes of the handlers that it looked for, and its
orchestration remembers a step.  Before the next logs the orchestration forgets what it remembers;
the notes stay, but they say what a search would find.  So a trace is the same whatever was traced
before it.

## Main definitions

* `Registry.Agrees` — two registries read every group alike.
* `Rebuilding.withRegistry` — a trace in the making with another registry.
* `Registry.IsFor` — a registry made for some settings, whatever it traced since.
* `Registry.after` — the registry after some traces.

## Main results

* `Registry.Agrees.interpret` — **registries that agree read a group alike and agree after it.**
* `Rebuilding.exists_undergo_withRegistry`, `Rebuilding.exists_foldl_undergo_withRegistry` — with
  such a registry a trace in the making goes on the same, at every occurrence and all along a run.
* `trace_eq_of_agrees` — **registries that agree once they forgot make the same trace.**
* `trace_eq_rebuild` — **what was traced before does not matter to a trace.**
-/

namespace TrustFramework

/-! ### Registries that agree -/

namespace Registry

/-- Two registries read every group alike: both are standard, and their orchestrations remember
the same.  They may have noted different handlers. -/
structure Agrees (r s : Registry) : Prop where
  left : r.IsStandard
  right : s.IsStandard
  memory : r.orchestration? = s.orchestration?

/-- What an interpretation means for a group. -/
def readingOf : Option Interpretation → Reading
  | none => .failed
  | some outcome => .done outcome.findings outcome.moved

/-- Only the orchestration goes by what it remembers. -/
theorem readingOf_interpret_of_ne {i : Interpreter} (hi : i ≠ .orchestration)
    (m m' : Orchestration) (c : Context) :
    readingOf (i.interpret m c) = readingOf (i.interpret m' c) := by
  simp only [Interpreter.interpret, if_neg hi]
  split
  · rfl
  · cases c.result <;> rfl

/-- Two registered interpreters read every group alike: they are the same, and if they are the
orchestration they remember the same. -/
def ReadsAlike (e e' : Registered) : Prop :=
  e.interpreter = e'.interpreter ∧ (e.interpreter = .orchestration → e.memory = e'.memory)

theorem ReadsAlike.readingOf_interpret {e e' : Registered} (h : ReadsAlike e e') (c : Context) :
    readingOf (e.interpreter.interpret e.memory c) =
      readingOf (e'.interpreter.interpret e'.memory c) := by
  rw [← h.1]
  by_cases horchestration : e.interpreter = .orchestration
  · rw [h.2 horchestration]
  · exact readingOf_interpret_of_ne horchestration _ _ c

/-- Every interpreter but the first is another one than the orchestration. -/
theorem IsStandard.interpreter_ne {r : Registry} (h : r.IsStandard) {n : Nat} {e : Registered}
    (he : r.entries[n + 1]? = some e) : e.interpreter ≠ .orchestration := by
  have hall : ∀ i ∈ Interpreter.standard.tail, i ≠ .orchestration := by decide
  have hget : Interpreter.standard[n + 1]? = some e.interpreter := by
    rw [← h.interpreters, List.getElem?_map, he]
    rfl
  rw [← List.getElem?_tail] at hget
  exact hall _ (List.mem_of_getElem? hget)

theorem IsStandard.exists_fallback {r : Registry} (h : r.IsStandard) :
    ∃ m, r.fallback = some ⟨.statebagOnly, m⟩ := by
  obtain ⟨⟨i, m⟩, he, rfl⟩ := Option.map_eq_some_iff.mp h.fallback
  exact ⟨m, he⟩

/-- The interpreters of registries that agree read a group alike. -/
theorem Agrees.exists_readsAlike {r s : Registry} (h : r.Agrees s) (handler : String) :
    ∃ e e', (r.search? handler <|> r.fallback) = some e ∧
      (s.search? handler <|> s.fallback) = some e' ∧ ReadsAlike e e' := by
  have hinterpreters := h.left.interpreters.trans h.right.interpreters.symm
  rw [search?_eq, search?_eq, place?_congr hinterpreters handler]
  cases hplace : s.place? handler with
  | none =>
    obtain ⟨m, hr⟩ := h.left.exists_fallback
    obtain ⟨m', hs⟩ := h.right.exists_fallback
    exact ⟨_, _, hr, hs, rfl, nofun⟩
  | some n =>
    obtain ⟨hn, -⟩ := List.findIdx?_eq_some_iff_getElem.mp hplace
    have he' : s.entries[n]? = some s.entries[n] := List.getElem?_eq_getElem hn
    have hsame : r.entries[n]?.map Registered.interpreter = some s.entries[n].interpreter := by
      rw [← List.getElem?_map, hinterpreters, List.getElem?_map, he']
      rfl
    obtain ⟨e, he, hinterpreter⟩ := Option.map_eq_some_iff.mp hsame
    refine ⟨e, _, by rw [Option.bind_some, he]; rfl, by rw [Option.bind_some, he']; rfl,
      hinterpreter, fun horchestration => ?_⟩
    cases n with
    | zero =>
      have hmemory := h.memory
      rw [orchestration?, orchestration?, List.head?_eq_getElem?, List.head?_eq_getElem?, he,
        he'] at hmemory
      exact Option.some.inj hmemory
    | succ n => exact absurd horchestration (h.left.interpreter_ne he)

/-- **Registries that agree read a group alike and agree after it.** -/
theorem Agrees.interpret {r s : Registry} (h : r.Agrees s) (c : Context) :
    (r.interpret c).2 = (s.interpret c).2 ∧ (r.interpret c).1.Agrees (s.interpret c).1 := by
  constructor
  · obtain ⟨e, e', he, he', halike⟩ := h.exists_readsAlike c.handler
    rw [h.left.interpret_snd, h.right.interpret_snd, he, he']
    exact halike.readingOf_interpret c
  · obtain ⟨m, -, hr⟩ := h.left.head?_entries
    have hs : s.orchestration? = some m := h.memory ▸ hr
    refine ⟨h.left.interpret c, h.right.interpret c, ?_⟩
    rw [h.left.orchestration?_interpret hr, h.right.orchestration?_interpret hs]

end Registry

/-! ### Traces in the making that agree -/

namespace Rebuilding

/-- A trace in the making with another registry. -/
def withRegistry (t : Rebuilding) (r : Registry) : Rebuilding := { t with registry := r }

section

variable (t : Rebuilding) (r : Registry)

theorem settle_withRegistry (s : TraceStep) :
    (t.withRegistry r).settle s = (t.settle s).withRegistry r := by
  unfold settle withRegistry
  dsimp only
  split
  · split <;> rfl
  · rfl

theorem close_withRegistry : (t.withRegistry r).close = t.close.withRegistry r := by
  cases hcurrent : t.current with
  | none =>
    have hother : (t.withRegistry r).current = none := hcurrent
    rw [close, close, hcurrent, hother]
  | some s =>
    have hother : (t.withRegistry r).current = some s := hcurrent
    rw [close, close, hcurrent, hother]
    exact settle_withRegistry { t with current := none } r (t.snapshot s).located

theorem openStep_withRegistry (f : Findings) (log : LogInput) (eventType : String) :
    (t.withRegistry r).openStep f log eventType = (t.openStep f log eventType).withRegistry r := by
  rw [openStep, openStep, close_withRegistry]
  rfl

theorem advance_withRegistry (f : Findings) (log : LogInput) (eventType : String) :
    (t.withRegistry r).advance f log eventType = (t.advance f log eventType).withRegistry r := by
  rw [advance, advance, openStep_withRegistry]
  split <;> rfl

theorem apply_withRegistry (f : Findings) (log : LogInput) (eventType : String) :
    (t.withRegistry r).apply f log eventType = (t.apply f log eventType).withRegistry r := by
  cases hsuccess : f.success with
  | false =>
    rw [apply, apply, hsuccess]
    simp only [Bool.not_false, if_true]
    split <;> rfl
  | true =>
    rw [apply_of_success hsuccess, apply_of_success hsuccess, advance_withRegistry]
    split
    · exact close_withRegistry ((t.advance f log eventType).concludeOpen f) r
    · rfl

theorem takeFatal_withRegistry (message : String) (log : LogInput) :
    (t.withRegistry r).takeFatal message log = (t.takeFatal message log).withRegistry r := by
  change (let u := ((t.failOpen message).withRegistry r).close
    { u with steps := u.steps ++ [u.fatalStep message log], sequence := u.sequence + 1 }) = _
  rw [close_withRegistry]
  rfl

end

/-- A trace in the making once it is known what a group means. -/
def heed (t : Rebuilding) (log : LogInput) (g : HandlerGroup) : Registry.Reading → Rebuilding
  | .skipped => t
  | .failed => t.report ("Interpreter error in " ++ g.handler ++ ": ")
  | .done findings moved =>
    { t with journeys := moveTo t.journeys moved }.apply findings log log.type

theorem takeGroup_eq (t : Rebuilding) (log : LogInput) (g : HandlerGroup) :
    t.takeGroup log log.type g =
      (t.withRegistry (t.registry.interpret (t.contextOf log g)).1).heed log g
        (t.registry.interpret (t.contextOf log g)).2 := by
  unfold takeGroup contextOf
  split
  next registry reading hinterpret =>
  rw [hinterpret]
  cases reading with
  | skipped | failed => rfl
  | done findings moved => cases moved <;> rfl

theorem heed_withRegistry (t : Rebuilding) (r : Registry) (log : LogInput) (g : HandlerGroup)
    (reading : Registry.Reading) :
    (t.withRegistry r).heed log g reading = (t.heed log g reading).withRegistry r := by
  cases reading with
  | skipped | failed => rfl
  | done findings moved =>
    exact apply_withRegistry { t with journeys := moveTo t.journeys moved } r findings log log.type

/-- **Step.**  With a registry that agrees, a trace in the making goes on the same, and the
registries agree again. -/
theorem exists_undergo_withRegistry {t : Rebuilding} {r : Registry} (h : t.registry.Agrees r)
    (o : Occurrence) :
    ∃ s, (t.withRegistry r).undergo o = (t.undergo o).withRegistry s ∧
      (t.undergo o).registry.Agrees s := by
  cases o with
  | malformed line => exact ⟨r, rfl, h⟩
  | fatal log message =>
    refine ⟨r, takeFatal_withRegistry t r message log, ?_⟩
    rw [registry_undergo_fatal]
    exact h
  | event log e =>
    cases e with
    | change c => exact ⟨r, rfl, h⟩
    | group g =>
      obtain ⟨hread, hagree⟩ := h.interpret (t.contextOf log g)
      refine ⟨(r.interpret (t.contextOf log g)).1, ?_, ?_⟩
      · have hother : (t.withRegistry r).undergo (.event log (.group g)) =
            (t.withRegistry (r.interpret (t.contextOf log g)).1).heed log g
              (r.interpret (t.contextOf log g)).2 := takeGroup_eq (t.withRegistry r) log g
        rw [hother, undergo_group, takeGroup_eq, hread, heed_withRegistry, heed_withRegistry]
        rfl
      · rw [undergo_group, registry_takeGroup]
        exact hagree

/-- **Run.**  So it does all along. -/
theorem exists_foldl_undergo_withRegistry {t : Rebuilding} {r : Registry}
    (h : t.registry.Agrees r) (past : List Occurrence) :
    ∃ s, past.foldl undergo (t.withRegistry r) = (past.foldl undergo t).withRegistry s := by
  induction past generalizing t r with
  | nil => exact ⟨r, rfl⟩
  | cons o past ih =>
    obtain ⟨s, hundergo, hagree⟩ := exists_undergo_withRegistry h o
    rw [List.foldl_cons, List.foldl_cons, hundergo]
    exact ih hagree

end Rebuilding

/-! ### Traces -/

/-- **Registries that agree once they forgot make the same trace.** -/
theorem trace_eq_of_agrees {r s : Registry} (h : r.forgotten.Agrees s.forgotten)
    (passes : List Pass) (settings : TraceSettings) (logs : List LogInput) :
    (rebuildWith r passes settings logs).2 = (rebuildWith s passes settings logs).2 := by
  cases hlogs : supportedLogs settings logs with
  | nil => rw [rebuildWith, rebuildWith, hlogs]
  | cons log rest =>
    have hne : supportedLogs settings logs ≠ [] := by simp [hlogs]
    -- the runs start with registries that agree
    obtain ⟨u, hrun⟩ := Rebuilding.exists_foldl_undergo_withRegistry
      (t := Rebuilding.start r.forgotten settings.dedupWindow
        (mainJourneyOf (supportedLogs settings logs))) h (occurrences settings logs)
    have hbehind : Rebuilding.behind s settings logs (occurrences settings logs) =
        (Rebuilding.behind r settings logs (occurrences settings logs)).withRegistry u := hrun
    rw [rebuildWith_eq hne, rebuildWith_eq hne, hbehind, Rebuilding.close_withRegistry]
    rfl

/-- A registry as it is made for some settings, whatever it traced since. -/
structure Registry.IsFor (settings : TraceSettings) (r : Registry) : Prop where
  standard : r.IsStandard
  reset : r.orchestration?.map Orchestration.reset = some settings.orchestrationReset

theorem Registry.isFor_standard (settings : TraceSettings) :
    (Registry.standard settings.orchestrationReset).IsFor settings :=
  ⟨Registry.isStandard_standard _, rfl⟩

theorem Registry.IsFor.agrees {settings : TraceSettings} {r s : Registry} (hr : r.IsFor settings)
    (hs : s.IsFor settings) : r.forgotten.Agrees s.forgotten := by
  refine ⟨hr.standard.forgotten, hs.standard.forgotten, ?_⟩
  -- of what is remembered only the pause is kept
  have hmemory : ∀ t : Registry, t.forgotten.orchestration? =
      (t.orchestration?.map Orchestration.reset).map fun reset => { reset } := fun t => by
    rw [Registry.orchestration?_forgotten, Option.map_map]
    rfl
  rw [hmemory, hmemory, hr.reset, hs.reset]

/-- A registry that traced some logs is one for the same settings. -/
theorem Registry.IsFor.rebuildWith {settings : TraceSettings} {r : Registry} (h : r.IsFor settings)
    (passes : List Pass) (logs : List LogInput) :
    (rebuildWith r passes settings logs).1.IsFor settings :=
  let ⟨hstandard, hreset⟩ := Rebuilding.isStandard_rebuildWith h.standard h.reset passes
  ⟨hstandard, hreset⟩

/-- The registry for some settings after some traces. -/
def Registry.after (settings : TraceSettings) (traces : List (List LogInput)) : Registry :=
  traces.foldl (fun r logs => (TrustFramework.rebuildWith r Pass.standard settings logs).1)
    (Registry.standard settings.orchestrationReset)

theorem Registry.isFor_after (settings : TraceSettings) (traces : List (List LogInput)) :
    (Registry.after settings traces).IsFor settings := by
  induction traces using List.reverseRecOn with
  | nil => exact Registry.isFor_standard settings
  | append_singleton traces logs ih =>
    rw [Registry.after, List.foldl_append]
    exact ih.rebuildWith _ logs

/-- **What was traced before does not matter to a trace.** -/
theorem trace_eq_rebuild {settings : TraceSettings} {r : Registry} (h : r.IsFor settings)
    (logs : List LogInput) :
    (rebuildWith r Pass.standard settings logs).2 = rebuild settings logs :=
  trace_eq_of_agrees (h.agrees (Registry.isFor_standard settings)) _ _ _

end TrustFramework
