import Mathlib.Data.List.Induction
import TrustFramework.Proofs.Trace.Groups

/-!
# What a run puts among its steps

The steps of a trace grow in two ways: the open step is closed, and an exception gets a step of
its own.  Whatever else happens in a run, the steps are what these filings amount to, one after
the other.

## Main definitions

* `Filing`, `Rebuilding.file` — what is put among the steps, and the steps after it.
* `Rebuilding.book` — all that filing looks at.
* `Rebuilding.filed`, `Rebuilding.filings` — the filings of an occurrence and of a run.

## Main results

* `Rebuilding.apply_of_success` — findings are taken by going on, and by closing the step.
* `Rebuilding.filedByGroup_cases` — what a group files is what its findings do.
* `Rebuilding.book_undergo` — **an occurrence does nothing to the steps but what it files.**
* `Rebuilding.book_foldl_undergo` — **the steps of a run are what its filings amount to.**
-/

namespace TrustFramework

/-- What is put among the steps of a trace. -/
inductive Filing where
  /-- A step that is closed. -/
  | closed (s : TraceStep)
  /-- A step that stands for an exception. -/
  | fatal (s : TraceStep)

/-- The step that is filed. -/
def Filing.step : Filing → TraceStep
  | closed s => s
  | fatal s => s

namespace Rebuilding

/-! ### Filing -/

/-- A trace in the making with one more filing among its steps. -/
def file (t : Rebuilding) : Filing → Rebuilding
  | .closed s => t.settle s
  | .fatal s => { t with steps := t.steps ++ [s] }

/-- All that filing looks at and changes. -/
def book (t : Rebuilding) : List TraceStep × Fields (Nat × Timestamp) × Milliseconds :=
  (t.steps, t.seen, t.window)

theorem book_file {t u : Rebuilding} (h : t.book = u.book) (x : Filing) :
    (t.file x).book = (u.file x).book := by
  obtain ⟨hsteps, h⟩ := Prod.mk.inj h
  obtain ⟨hseen, hwindow⟩ := Prod.mk.inj h
  cases x with
  | fatal s => simp [file, book, hsteps, hseen, hwindow]
  | closed s =>
    simp only [file, settle, hsteps, hseen, hwindow]
    split
    · split <;> simp [book]
    · simp [book, hsteps, hseen, hwindow]

theorem book_foldl_file {t u : Rebuilding} (h : t.book = u.book) (filings : List Filing) :
    (filings.foldl file t).book = (filings.foldl file u).book := by
  induction filings generalizing t u with
  | nil => exact h
  | cons x filings ih => exact ih (book_file h x)

/-- The filing that closes the open step, if there is one. -/
def closing (t : Rebuilding) : List Filing :=
  (t.current.map fun s => Filing.closed (t.snapshot s).located).toList

theorem book_close (t : Rebuilding) : t.close.book = (t.closing.foldl file t).book := by
  unfold close closing
  cases hcurrent : t.current with
  | none => rfl
  | some s =>
    exact book_file (t := { t with current := none }) (u := t) rfl (.closed (t.snapshot s).located)

/-! ### Findings -/

/-- A trace in the making after findings, before they close the step. -/
def advance (t : Rebuilding) (f : Findings) (log : LogInput) (eventType : String) : Rebuilding :=
  let t := if f.createStep then t.openStep f log eventType
    else { t.takeUpdates f with current := t.current.map (outcomeOfOpen f) }
  { t with
    journeys := travel f t.journeys
    current := t.current.map (f.applyTo t.statebag.claims) }

/-- A step with the outcome of findings that close it. -/
def concluded (f : Findings) (s : TraceStep) : TraceStep :=
  let s := match f.stepResult with
    | some r => s.withResult r
    | none => s
  match f.error.filter fun e => !e.isEmpty with
  | some message => s.withError message f.errorHresult
  | none => s

@[simp] theorem unjudged_concluded (f : Findings) (s : TraceStep) :
    (concluded f s).unjudged = s.unjudged := by
  unfold concluded
  split <;> split <;> simp

@[simp] theorem header_concluded (f : Findings) (s : TraceStep) :
    (concluded f s).header = s.header :=
  (congrArg TraceStep.header (unjudged_concluded f s) :)

@[simp] theorem nodeId_concluded (f : Findings) (s : TraceStep) :
    (concluded f s).nodeId = s.nodeId :=
  (congrArg TraceStep.nodeId (unjudged_concluded f s) :)

/-- A trace in the making with the outcome of findings that are about to close its step. -/
def concludeOpen (t : Rebuilding) (f : Findings) : Rebuilding :=
  { t with current := t.current.map (concluded f) }

/-- Findings are taken by going on with the open step or with a new one, and by closing it if
they do. -/
theorem apply_of_success {t : Rebuilding} {f : Findings} {log : LogInput} {eventType : String}
    (h : f.success = true) :
    t.apply f log eventType =
      if f.finalizeStep then ((t.advance f log eventType).concludeOpen f).close
      else t.advance f log eventType := by
  unfold apply advance
  rw [h]
  simp only [Bool.not_true, Bool.false_eq_true, if_false]
  generalize (if f.createStep then t.openStep f log eventType
    else { t.takeUpdates f with current := t.current.map (outcomeOfOpen f) }) = t'
  obtain ⟨journeys, registry, window, statebag, steps, errors, current, sequence, seen⟩ := t'
  cases current with
  | none => cases f.finalizeStep <;> rfl
  | some s => rfl

/-- Findings about a group that could not be interpreted are reported. -/
theorem exists_apply_of_not_success (t : Rebuilding) {f : Findings} (log : LogInput)
    (eventType : String) (h : f.success = false) :
    ∃ errors, t.apply f log eventType = { t with errors } := by
  unfold apply
  rw [h]
  simp only [Bool.not_false, if_true]
  split
  · exact ⟨_, rfl⟩
  · exact ⟨t.errors, rfl⟩

/-- The filings of findings: the step that was open gives way to a new one, and the step that is
open then may be closed. -/
def filedBy (t : Rebuilding) (f : Findings) (log : LogInput) (eventType : String) : List Filing :=
  if f.success then
    (if f.createStep then t.closing else []) ++
      (if f.finalizeStep then ((t.advance f log eventType).concludeOpen f).closing else [])
  else []

theorem book_advance (t : Rebuilding) (f : Findings) (log : LogInput) (eventType : String) :
    (t.advance f log eventType).book =
      ((if f.createStep then t.closing else []).foldl file t).book := by
  unfold advance
  cases f.createStep with
  | true => exact book_close t
  | false => rfl

theorem book_apply (t : Rebuilding) (f : Findings) (log : LogInput) (eventType : String) :
    (t.apply f log eventType).book = ((t.filedBy f log eventType).foldl file t).book := by
  unfold filedBy
  cases hsuccess : f.success with
  | false =>
    obtain ⟨errors, happly⟩ := exists_apply_of_not_success t log eventType hsuccess
    rw [happly]
    rfl
  | true =>
    rw [apply_of_success hsuccess, if_pos rfl, List.foldl_append]
    have hadvance := book_advance t f log eventType
    cases f.finalizeStep with
    | false => exact hadvance
    | true =>
      rw [if_pos rfl, if_pos rfl, book_close]
      exact book_foldl_file (t := (t.advance f log eventType).concludeOpen f) hadvance _

/-! ### Occurrences -/

/-- A trace in the making whose open step failed with an exception. -/
def failOpen (t : Rebuilding) (message : String) : Rebuilding :=
  { t.report message with current := t.current.map fun s => s.withError message none }

/-- The filings of a group. -/
def filedByGroup (t : Rebuilding) (log : LogInput) (g : HandlerGroup) : List Filing :=
  match (t.registry.interpret (t.contextOf log g)).2 with
  | .done findings moved =>
    filedBy
      { t with
        registry := (t.registry.interpret (t.contextOf log g)).1
        journeys := moveTo t.journeys moved }
      findings log log.type
  | _ => []

/-- The filings of an occurrence. -/
def filed (t : Rebuilding) : Occurrence → List Filing
  | .malformed _ => []
  | .event _ (.change _) => []
  | .event log (.group g) => t.filedByGroup log g
  | .fatal log message => (t.failOpen message).closing ++
      [.fatal ((t.failOpen message).close.fatalStep message log)]

/-- A group that cannot be interpreted is passed over, or reported. -/
theorem takeGroup_of_not_done {t : Rebuilding} {log : LogInput} {eventType : String}
    {g : HandlerGroup}
    (h : ∀ f moved, (t.registry.interpret (t.contextOf log g)).2 ≠ .done f moved) :
    ∃ registry errors, t.takeGroup log eventType g = { t with registry, errors } := by
  unfold takeGroup
  unfold contextOf at h
  split
  next registry reading hinterpret =>
  rw [hinterpret] at h
  cases reading with
  | skipped => exact ⟨registry, t.errors, rfl⟩
  | failed => exact ⟨registry, _, rfl⟩
  | done f moved => exact absurd rfl (h f moved)

/-- The filings of a group are those of its findings, if it has any. -/
theorem filedByGroup_cases (t : Rebuilding) (log : LogInput) (g : HandlerGroup) :
    (∃ f registry journeys,
      t.takeGroup log log.type g = { t with registry, journeys }.apply f log log.type ∧
        t.filedByGroup log g = { t with registry, journeys }.filedBy f log log.type) ∨
    (∃ registry errors, t.takeGroup log log.type g = { t with registry, errors }) ∧
      t.filedByGroup log g = [] := by
  unfold filedByGroup
  cases hread : (t.registry.interpret (t.contextOf log g)).2 with
  | done f moved => exact Or.inl ⟨f, _, _, takeGroup_of_done hread, rfl⟩
  | skipped => exact Or.inr ⟨takeGroup_of_not_done (by simp [hread]), rfl⟩
  | failed => exact Or.inr ⟨takeGroup_of_not_done (by simp [hread]), rfl⟩

/-- **Step.**  An occurrence does nothing to the steps but what it files. -/
theorem book_undergo (t : Rebuilding) (o : Occurrence) :
    (t.undergo o).book = ((t.filed o).foldl file t).book := by
  cases o with
  | malformed line => rfl
  | fatal log message =>
    have hclose : (t.failOpen message).close.book =
        ((t.failOpen message).closing.foldl file t).book :=
      (book_close _).trans (book_foldl_file (t := t.failOpen message) (u := t) rfl _)
    rw [filed, List.foldl_append]
    exact book_file hclose (.fatal ((t.failOpen message).close.fatalStep message log))
  | event log e =>
    cases e with
    | change c => rfl
    | group g =>
      rw [undergo_group, filed]
      obtain ⟨f, registry, journeys, htake, hfiled⟩ | ⟨⟨registry, errors, htake⟩, hfiled⟩ :=
        filedByGroup_cases t log g
      · rw [htake, hfiled, book_apply]
        exact book_foldl_file (t := { t with registry, journeys }) (u := t) rfl _
      · rw [htake, hfiled]
        rfl

/-! ### Runs -/

/-- The filings in the course of some occurrences. -/
def filings (t : Rebuilding) : List Occurrence → List Filing
  | [] => []
  | o :: rest => t.filed o ++ (t.undergo o).filings rest

theorem filings_eq_along (t : Rebuilding) (past : List Occurrence) :
    t.filings past = along filed t past := by
  induction past generalizing t with
  | nil => rfl
  | cons o past ih => rw [filings, along, ih]

/-- What is filed in a run is filed by some occurrence, behind those before it. -/
theorem exists_of_mem_filings {t : Rebuilding} {past : List Occurrence} {x : Filing}
    (h : x ∈ t.filings past) : ∃ earlier o later, past = earlier ++ o :: later ∧
      x ∈ (earlier.foldl undergo t).filed o := by
  rw [filings_eq_along] at h
  exact (mem_along_iff filed).mp h

theorem filings_append_singleton (t : Rebuilding) (past : List Occurrence) (o : Occurrence) :
    t.filings (past ++ [o]) = t.filings past ++ (past.foldl undergo t).filed o := by
  rw [filings_eq_along, filings_eq_along, along_append_singleton]

/-- **Run.**  The steps of a run are what its filings amount to. -/
theorem book_foldl_undergo (t : Rebuilding) (past : List Occurrence) :
    (past.foldl undergo t).book = ((t.filings past).foldl file t).book := by
  induction past using List.reverseRecOn with
  | nil => rfl
  | append_singleton past o ih =>
    rw [filings_append_singleton, List.foldl_append, List.foldl_append, List.foldl_cons,
      List.foldl_nil, book_undergo]
    exact book_foldl_file ih _

end Rebuilding
end TrustFramework
