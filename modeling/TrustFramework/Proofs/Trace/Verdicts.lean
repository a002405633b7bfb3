import TrustFramework.Proofs.Trace.Repetition
import TrustFramework.Proofs.Trace.Visits

/-!
# How steps are judged

The result of a step is that of the last verdict about it, and its message that of the last
failure.  A failure that another verdict follows leaves a message on a step that did not fail;
only an error among the repetitions of the step makes up for that.

## Main definitions

* `Verdict`, `Findings.verdict?` — what findings say about how a step goes.
* `TraceStep.IsJudged` — a step with the result and the message that verdicts amount to.
* `Folded`, `Rebuilding.folded` — the steps of a trace with the repetitions folded into them.

## Main results

* `Rebuilding.IsMadeOf.isJudged` — an open step is judged by what it took.
* `Rebuilding.steps_foldl_file` — the steps of a trace are what was filed, repetitions folded in.
* `Rebuilding.messages_of_steps` — **which steps have a message and no error.**
* `Rebuilding.failure_painted_over` — a step that has.
-/

namespace TrustFramework

/-! ### Verdicts -/

/-- What is said about how a step goes. -/
inductive Verdict where
  /-- It has a result. -/
  | plain (r : StepResult)
  /-- It failed with a message. -/
  | failure (message : String)

/-- The result that a verdict means. -/
def Verdict.result : Verdict → StepResult
  | plain r => r
  | failure _ => .error

/-- The message of a verdict. -/
def Verdict.message? : Verdict → Option String
  | plain _ => none
  | failure message => some message

/-- The message of findings, unless it is empty. -/
def Findings.message? (f : Findings) : Option String := f.error.filter fun e => !e.isEmpty

/-- What findings say about how a step goes.  Their message counts if they close the step, or with
an error. -/
def Findings.verdict? (f : Findings) : Option Verdict :=
  match f.message? with
  | some message =>
    if f.finalizeStep || f.stepResult = some .error then some (.failure message)
    else f.stepResult.map .plain
  | none => f.stepResult.map .plain

/-- What an occurrence says about the step that it closes. -/
def Occurrence.verdict? : Occurrence → Option Verdict
  | .fatal _ message => some (.failure message)
  | _ => none

/-- A step has the result of the last verdict, if there is one, and the message of the last
failure. -/
structure TraceStep.IsJudged (s : TraceStep) (verdicts : List Verdict) : Prop where
  result : s.result = (verdicts.getLast?.map Verdict.result).getD .success
  errorMessage : s.errorMessage = (verdicts.filterMap Verdict.message?).getLast?

namespace TraceStep

variable {s s' : TraceStep} {verdicts : List Verdict}

theorem IsJudged.congr (h : s.IsJudged verdicts) (hresult : s'.result = s.result)
    (hmessage : s'.errorMessage = s.errorMessage) : s'.IsJudged verdicts :=
  ⟨hresult.trans h.result, hmessage.trans h.errorMessage⟩

theorem IsFresh.isJudged (h : s.IsFresh) : s.IsJudged [] := ⟨h.result, h.errorMessage⟩

/-- One more verdict gives a step its result, and its message if it has one. -/
theorem IsJudged.append_singleton (h : s.IsJudged verdicts) (v : Verdict)
    (hresult : s'.result = v.result)
    (hmessage : s'.errorMessage = v.message?.or s.errorMessage) :
    s'.IsJudged (verdicts ++ [v]) where
  result := by rw [hresult, List.getLast?_concat]; rfl
  errorMessage := by
    rw [hmessage, h.errorMessage, List.filterMap_append, List.getLast?_append]
    cases v <;> rfl

theorem IsJudged.withResult (h : s.IsJudged verdicts) (r : StepResult) :
    (s.withResult r).IsJudged (verdicts ++ [.plain r]) :=
  h.append_singleton (.plain r) rfl rfl

theorem IsJudged.withError (h : s.IsJudged verdicts) (message : String) (hresult : Option String) :
    (s.withError message hresult).IsJudged (verdicts ++ [.failure message]) :=
  h.append_singleton (.failure message) rfl rfl

end TraceStep

namespace Rebuilding

/-! ### Open steps -/

/-- An outcome is the verdict of findings that do not close the step. -/
theorem isJudged_outcome {s : TraceStep} {verdicts : List Verdict} (h : s.IsJudged verdicts)
    {f : Findings} (hfinalize : f.finalizeStep = false) :
    (outcome f s).IsJudged (verdicts ++ f.verdict?.toList) := by
  unfold outcome Findings.verdict? Findings.message?
  cases f.stepResult with
  | none =>
    rw [hfinalize]
    cases f.error.filter fun e => !e.isEmpty <;> simpa using h
  | some r =>
    cases f.error.filter fun e => !e.isEmpty with
    | none => exact h.withResult r
    | some message =>
      by_cases hr : r = .error
      · simpa [hr] using h.withError message f.errorHresult
      · simpa [hr, hfinalize] using h.withResult r

/-- A step that findings close has their verdict, if no other part of their outcome came before
it. -/
theorem isJudged_concluded {s s' : TraceStep} {verdicts : List Verdict} (h : s.IsJudged verdicts)
    {f : Findings} (hfinalize : f.finalizeStep = true)
    (hresult : f.stepResult = none → s'.result = s.result)
    (hmessage : f.message? = none → s'.errorMessage = s.errorMessage) :
    (concluded f s').IsJudged (verdicts ++ f.verdict?.toList) := by
  unfold concluded Findings.verdict?
  rw [hfinalize, Bool.true_or]
  unfold Findings.message? at hmessage ⊢
  cases hfailure : f.error.filter fun e => !e.isEmpty with
  | some message => exact h.append_singleton (.failure message) rfl rfl
  | none =>
    cases hr : f.stepResult with
    | none => simpa using h.congr (hresult hr) (hmessage hfailure)
    | some r => exact h.append_singleton (.plain r) rfl (hmessage hfailure)

theorem outcome_of_stepResult_eq_none {f : Findings} (h : f.stepResult = none) (s : TraceStep) :
    outcome f s = s := by
  rw [outcome, h]

theorem errorMessage_outcome {f : Findings} (h : f.message? = none) (s : TraceStep) :
    (outcome f s).errorMessage = s.errorMessage := by
  unfold Findings.message? at h
  unfold outcome
  rw [h]
  cases f.stepResult <;> rfl

/-- A step that takes findings has their verdict. -/
theorem isJudged_takenInto {s : TraceStep} {verdicts : List Verdict} (h : s.IsJudged verdicts)
    (f : Findings) (claims : Fields String) {s' : TraceStep}
    (htaker : s' = outcome f s ∨ s' = outcomeOfOpen f s) :
    (f.takenInto claims s').IsJudged (verdicts ++ f.verdict?.toList) := by
  -- an outcome is put off only by findings that close the step
  have htaker : s' = outcome f s ∨ f.finalizeStep = true ∧ s' = s := by
    rcases htaker with rfl | rfl
    · exact Or.inl rfl
    · unfold outcomeOfOpen
      split
      · next hclosing =>
        rw [Bool.and_eq_true] at hclosing
        exact Or.inr ⟨hclosing.1, rfl⟩
      · exact Or.inl rfl
  unfold Findings.takenInto
  split
  · next hfinalize =>
    refine isJudged_concluded h hfinalize (fun hr => ?_) (fun hmessage => ?_)
    · rw [Findings.result_applyTo]
      rcases htaker with rfl | ⟨-, rfl⟩
      · rw [outcome_of_stepResult_eq_none hr]
      · rfl
    · rw [Findings.errorMessage_applyTo]
      rcases htaker with rfl | ⟨-, rfl⟩
      · exact errorMessage_outcome hmessage s
      · rfl
  · next hfinalize =>
    obtain rfl := htaker.resolve_right fun hclosing => hfinalize hclosing.1
    exact (isJudged_outcome h (by simpa using hfinalize)).congr
      (Findings.result_applyTo f claims _) (Findings.errorMessage_applyTo f claims _)

theorem isJudged_noteTransition {s : TraceStep} {verdicts : List Verdict}
    (h : s.IsJudged verdicts) (eventName : String) :
    (noteTransition eventName s).IsJudged verdicts :=
  h.congr (result_noteTransition eventName s) (errorMessage_noteTransition eventName s)

/-- **An open step is judged by what it took.** -/
theorem IsMadeOf.isJudged {fs : List Findings} {s : TraceStep} (h : IsMadeOf fs s) :
    s.IsJudged (fs.filterMap Findings.verdict?) := by
  induction h with
  | @opened s f claims hfresh hcreate =>
    have hverdict := isJudged_takenInto hfresh.isJudged f claims (Or.inl rfl)
    cases hv : f.verdict? <;> simpa [hv] using hverdict
  | @taken fs s f claims _ hcreate ih =>
    have hverdict := isJudged_takenInto ih f claims (Or.inr rfl)
    rw [List.filterMap_append]
    cases hv : f.verdict? <;> simpa [hv] using hverdict
  | noted eventName _ ih => exact isJudged_noteTransition ih eventName

/-- What closes a step judges it as well. -/
theorem isJudged_endedBy {s : TraceStep} {verdicts : List Verdict} (h : s.IsJudged verdicts)
    (o : Occurrence) : (endedBy s o).IsJudged (verdicts ++ o.verdict?.toList) := by
  cases o with
  | fatal log message => exact h.withError message none
  | malformed line => simpa [endedBy, Occurrence.verdict?] using h
  | event log e => simpa [endedBy, Occurrence.verdict?] using h

end Rebuilding

/-! ### Repetitions -/

theorem StepResult.merge_eq_error_iff (a b : StepResult) :
    a.merge b = .error ↔ a = .error ∨ b = .error := by
  cases a <;> cases b <;> simp [merge, weight]

/-- Whether a step has a message that is not empty. -/
def TraceStep.HasMessage (s : TraceStep) : Prop := ∃ message, s.errorMessage = some message ∧
  message ≠ ""

theorem TraceStep.hasMessage_absorb_iff (s again : TraceStep) :
    (s.absorb again).HasMessage ↔ s.HasMessage ∨ again.HasMessage := by
  unfold HasMessage absorb
  rcases hs : s.errorMessage with _ | m <;> rcases hagain : again.errorMessage with _ | m'
  · simp
  · by_cases hm' : m' = "" <;> simp [hm']
  · simp
  · by_cases hm : m = "" <;> by_cases hm' : m' = "" <;> simp [hm, hm']

/-- A step as it was filed first, and the repetitions that were folded into it. -/
structure Folded where
  first : TraceStep
  again : List TraceStep

namespace Folded

/-- All that is one step. -/
def all (p : Folded) : List TraceStep := p.first :: p.again

/-- The step. -/
def step (p : Folded) : TraceStep := p.again.foldl TraceStep.absorb p.first

/-- One more repetition. -/
def add (p : Folded) (s : TraceStep) : Folded := { p with again := p.again ++ [s] }

theorem step_add (p : Folded) (s : TraceStep) : (p.add s).step = p.step.absorb s := by
  rw [step, add, List.foldl_append]
  rfl

variable {P : TraceStep → Prop}

/-- What a step has from one of two that are folded, it has from one of all that it is. -/
theorem exists_of_step (habsorb : ∀ s again, P (s.absorb again) → P s ∨ P again) (p : Folded)
    (h : P p.step) : ∃ s ∈ p.all, P s := by
  obtain ⟨first, again⟩ := p
  induction again using List.reverseRecOn with
  | nil => exact ⟨first, List.mem_cons_self, h⟩
  | append_singleton again s ih =>
    rcases habsorb _ _ (step_add ⟨first, again⟩ s ▸ h) with h | h
    · obtain ⟨u, hu, hP⟩ := ih h
      exact ⟨u, List.mem_append_left [s] hu, hP⟩
    · exact ⟨s, List.mem_append_right (first :: again) List.mem_cons_self, h⟩

/-- What folding keeps of both steps is kept of all that is one step. -/
theorem step_of_mem (habsorb : ∀ s again, P s ∨ P again → P (s.absorb again)) {p : Folded}
    {s : TraceStep} (hs : s ∈ p.all) (h : P s) : P p.step := by
  obtain ⟨first, again⟩ := p
  induction again using List.reverseRecOn with
  | nil =>
    rw [List.mem_singleton.mp hs] at h
    exact h
  | append_singleton again last ih =>
    have hstep := step_add ⟨first, again⟩ last
    rcases List.mem_append.mp (show s ∈ (first :: again) ++ [last] from hs) with hs | hs
    · exact hstep ▸ habsorb _ _ (Or.inl (ih hs))
    · exact hstep ▸ habsorb _ _ (Or.inr (List.mem_singleton.mp hs ▸ h))

/-- A step failed if it did once. -/
theorem result_step_eq_error_iff (p : Folded) :
    p.step.result = .error ↔ ∃ s ∈ p.all, s.result = .error := by
  have habsorb (s again : TraceStep) :
      (s.absorb again).result = .error ↔ s.result = .error ∨ again.result = .error :=
    StepResult.merge_eq_error_iff s.result again.result
  constructor
  · exact p.exists_of_step (P := fun s => s.result = .error) fun s again => (habsorb s again).mp
  · rintro ⟨s, hs, hresult⟩
    exact step_of_mem (P := fun s => s.result = .error) (fun s again => (habsorb s again).mpr) hs
      hresult

/-- A step has a message from one of all that it is. -/
theorem exists_errorMessage_ne_none (p : Folded) (h : p.step.errorMessage ≠ none) :
    ∃ s ∈ p.all, s.errorMessage ≠ none := by
  refine p.exists_of_step (P := fun s => s.errorMessage ≠ none) (fun s again h => ?_) h
  unfold TraceStep.absorb at h
  dsimp only at h
  split at h
  · exact Or.inr h
  · exact Or.inl h

/-- A step has a message if one of all that it is has one that is not empty. -/
theorem errorMessage_step_ne_none {p : Folded} {s : TraceStep} (hs : s ∈ p.all)
    (h : s.HasMessage) : p.step.errorMessage ≠ none := by
  obtain ⟨message, hmessage, -⟩ :=
    step_of_mem (fun s again => (TraceStep.hasMessage_absorb_iff s again).mpr) hs h
  rw [hmessage]
  exact Option.some_ne_none message

end Folded

namespace Rebuilding

/-- The steps of a trace in the making, with what one more filing does to them. -/
def fold (t : Rebuilding) (ps : List Folded) : Filing → List Folded
  | .fatal s => ps ++ [⟨s, []⟩]
  | .closed s =>
    if isKept s then
      match (t.seen.get? (stepKey s)).filter fun last => isWithin t.window last.2 s.timestamp with
      | some (place, _) => ps.modify place fun p => p.add s
      | none => ps ++ [⟨s, []⟩]
    else ps

/-- The steps after some filings. -/
def folds (t : Rebuilding) (ps : List Folded) : List Filing → List Folded
  | [] => ps
  | x :: rest => (t.file x).folds (t.fold ps x) rest

/-- **Step.**  A filing does to the steps what it does to what they are made of. -/
theorem steps_file {t : Rebuilding} {ps : List Folded} (h : t.steps = ps.map Folded.step)
    (x : Filing) : (t.file x).steps = (t.fold ps x).map Folded.step := by
  cases x with
  | fatal s =>
    rw [fold, List.map_append, ← h]
    rfl
  | closed s =>
    show (t.settle s).steps = _
    rw [fold, settle]
    cases isKept s with
    | false => exact h
    | true =>
      rw [if_pos rfl, if_pos rfl]
      cases (t.seen.get? (stepKey s)).filter fun last => isWithin t.window last.2 s.timestamp with
      | some last => exact h ▸ (map_modify (fun p => p.step_add s) ps last.1).symm
      | none =>
        rw [List.map_append, ← h]
        rfl

/-- **Run.**  So do filings one after the other. -/
theorem steps_foldl_file {t : Rebuilding} {ps : List Folded} (h : t.steps = ps.map Folded.step)
    (filings : List Filing) :
    (filings.foldl file t).steps = (t.folds ps filings).map Folded.step := by
  induction filings generalizing t ps with
  | nil => exact h
  | cons x filings ih => exact ih (steps_file h x)

/-- Nothing is folded but what is filed. -/
theorem mem_of_mem_fold {t : Rebuilding} {ps : List Folded} {x : Filing} {p : Folded}
    (hp : p ∈ t.fold ps x) {s : TraceStep} (hs : s ∈ p.all) :
    s = x.step ∨ ∃ q ∈ ps, s ∈ q.all := by
  have hnew {s' : TraceStep} (hp : p ∈ ps ++ [⟨s', []⟩]) : s = s' ∨ ∃ q ∈ ps, s ∈ q.all := by
    rcases List.mem_append.mp hp with hp | hp
    · exact Or.inr ⟨p, hp, hs⟩
    · rw [List.mem_singleton.mp hp] at hs
      exact Or.inl (List.mem_singleton.mp hs)
  cases x with
  | fatal s' => exact hnew hp
  | closed s' =>
    rw [fold] at hp
    split at hp
    · split at hp
      · obtain ⟨i, hi, rfl⟩ := List.getElem_of_mem hp
        rw [List.length_modify] at hi
        rw [List.getElem_modify] at hs
        split at hs
        · rcases List.mem_append.mp (show s ∈ ps[i].all ++ [s'] from hs) with hs | hs
          · exact Or.inr ⟨ps[i], List.getElem_mem hi, hs⟩
          · exact Or.inl (List.mem_singleton.mp hs)
        · exact Or.inr ⟨ps[i], List.getElem_mem hi, hs⟩
      · exact hnew hp
    · exact Or.inr ⟨p, hp, hs⟩

theorem mem_of_mem_folds {t : Rebuilding} {ps : List Folded} {filings : List Filing} {p : Folded}
    (hp : p ∈ t.folds ps filings) {s : TraceStep} (hs : s ∈ p.all) :
    (∃ x ∈ filings, x.step = s) ∨ ∃ q ∈ ps, s ∈ q.all := by
  induction filings generalizing t ps with
  | nil => exact Or.inr ⟨p, hp, hs⟩
  | cons x filings ih =>
    obtain ⟨y, hy, rfl⟩ | ⟨q, hq, hs⟩ := ih hp
    · exact Or.inl ⟨y, List.mem_cons_of_mem _ hy, rfl⟩
    · rcases mem_of_mem_fold hq hs with rfl | hs
      · exact Or.inl ⟨x, List.mem_cons_self, rfl⟩
      · exact Or.inr hs

/-! ### Verdicts in a run -/

section

variable (registry : Registry) (settings : TraceSettings) (logs : List LogInput)

/-- The steps of a trace with the repetitions folded into them. -/
def folded : List Folded :=
  (behind registry settings logs []).folds [] (allFilings registry settings logs)

/-- The verdicts about a step that is filed in a run. -/
inductive VerdictsOn : TraceStep → List Verdict → Prop
  /-- One that an occurrence closes: those of what it took, and of what closes it. -/
  | closed {past rest : List Occurrence} {o : Occurrence} {s : TraceStep}
      {before during : List Findings}
      (hrun : occurrences settings logs = past ++ o :: rest)
      (hfiled : .closed s ∈ (behind registry settings logs past).filed o)
      (hvisit : IsVisit registry settings logs (past ++ [o]) s.sequence before during) :
      VerdictsOn s (during.filterMap Findings.verdict? ++ o.verdict?.toList)
  /-- One that is open at the end. -/
  | last {s : TraceStep} {before during : List Findings}
      (hfiled : .closed s ∈
        (behind registry settings logs (occurrences settings logs)).closing)
      (hvisit : IsVisit registry settings logs (occurrences settings logs) s.sequence before
        during) :
      VerdictsOn s (during.filterMap Findings.verdict?)
  /-- One that stands for an exception. -/
  | fatal {past rest : List Occurrence} {log : LogInput} {message : String} {s : TraceStep}
      (hrun : occurrences settings logs = past ++ .fatal log message :: rest)
      (hfiled : .fatal s ∈ (behind registry settings logs past).filed (.fatal log message)) :
      VerdictsOn s [.failure message]

end

variable {registry : Registry} {settings : TraceSettings} {logs : List LogInput}

/-- What is filed is judged by the verdicts about it. -/
theorem exists_verdictsOn {x : Filing} (h : x ∈ allFilings registry settings logs) :
    ∃ verdicts, VerdictsOn registry settings logs x.step verdicts ∧ x.step.IsJudged verdicts := by
  rcases List.mem_append.mp h with h | h
  · obtain ⟨past, o, rest, hrun, hfiled⟩ := exists_of_mem_filings h
    cases x with
    | closed s =>
      obtain ⟨before, during, s', hvisit, hmade, hfiledAs⟩ := exists_visit_of_filed hfiled
      exact ⟨_, .closed hrun hfiled hvisit,
        (isJudged_endedBy hmade.isJudged o).congr hfiledAs.result hfiledAs.errorMessage⟩
    | fatal s =>
      obtain ⟨-, hresult, log, message, rfl, hmessage⟩ := eq_fatal_of_mem_filed hfiled
      exact ⟨_, .fatal hrun hfiled, hresult, hmessage⟩
  · cases x with
    | closed s =>
      obtain ⟨before, during, s', hvisit, hfiledAs⟩ := exists_visit_of_closing h
      exact ⟨_, .last h (hfiledAs.sequence ▸ hvisit.visit),
        hvisit.madeOf.isJudged.congr hfiledAs.result hfiledAs.errorMessage⟩
    | fatal s => exact absurd h (fatal_not_mem_closing _ s)

/-- Findings have no empty message. -/
theorem message_ne_empty {fs : List Findings} {v : Verdict}
    (hv : v ∈ fs.filterMap Findings.verdict?) : v.message? ≠ some "" := by
  obtain ⟨f, -, hverdict⟩ := List.mem_filterMap.mp hv
  unfold Findings.verdict? at hverdict
  split at hverdict
  · next message hmessage =>
    split at hverdict
    · obtain rfl := Option.some.inj hverdict
      rintro ⟨rfl⟩
      simpa using (Option.filter_eq_some_iff.mp hmessage).2
    · obtain ⟨r, -, rfl⟩ := Option.map_eq_some_iff.mp hverdict
      simp [Verdict.message?]
  · obtain ⟨r, -, rfl⟩ := Option.map_eq_some_iff.mp hverdict
    simp [Verdict.message?]

/-- A step with an empty message is one that an exception ended. -/
theorem VerdictsOn.result_eq_error {s : TraceStep} {verdicts : List Verdict}
    (h : VerdictsOn registry settings logs s verdicts) (hjudged : s.IsJudged verdicts)
    (hmessage : s.errorMessage = some "") : s.result = .error := by
  rw [hjudged.errorMessage] at hmessage
  obtain ⟨v, hv, hempty⟩ := List.mem_filterMap.mp (List.mem_of_getLast? hmessage)
  rw [hjudged.result]
  cases h with
  | fatal hrun hfiled => rfl
  | last hfiled hvisit => exact absurd hempty (message_ne_empty hv)
  | @closed past rest o _ before during hrun hfiled hvisit =>
    cases hlast : o.verdict? with
    | some last =>
      cases o <;> simp [Occurrence.verdict?] at hlast
      obtain rfl := hlast
      simp [Verdict.result]
    | none =>
      rw [hlast, Option.toList_none, List.append_nil] at hv
      exact absurd hempty (message_ne_empty hv)

/-- **Which steps have a message and no error.**  The steps of a trace are those that were filed,
with the repetitions folded in.  What was filed has the result of the last verdict about it, and
the message of the last failure.  No step has a message without having failed exactly if, of all
that is one step, something failed if something has a message. -/
theorem messages_of_steps (registry : Registry) (passes : List Pass) (settings : TraceSettings)
    (logs : List LogInput) :
    let steps := (rebuildWith registry passes settings logs).2.steps
    let folded := folded registry settings logs
    steps.map TraceStep.outline = folded.map (fun p => p.step.outline) ∧
    (∀ p ∈ folded, ∀ s ∈ p.all, ∃ verdicts,
      VerdictsOn registry settings logs s verdicts ∧ s.IsJudged verdicts) ∧
    ((∀ s ∈ steps, s.errorMessage ≠ none → s.result = .error) ↔
      ∀ p ∈ folded, (∃ s ∈ p.all, s.errorMessage ≠ none) → ∃ s ∈ p.all, s.result = .error) := by
  intro steps folded
  have houtline : steps.map TraceStep.outline = folded.map (fun p => p.step.outline) := by
    have hfolded : ((allFilings registry settings logs).foldl file
        (behind registry settings logs [])).steps = folded.map Folded.step :=
      steps_foldl_file rfl _
    have hfiled : (behind registry settings logs (occurrences settings logs)).close.steps =
        folded.map Folded.step :=
      (congrArg Prod.fst (book_close_behind registry settings logs)).trans hfolded
    have hsteps := outline_steps_rebuildWith registry passes settings logs
    rw [hfiled, List.map_map] at hsteps
    exact hsteps
  have hverdicts : ∀ p ∈ folded, ∀ s ∈ p.all, ∃ verdicts,
      VerdictsOn registry settings logs s verdicts ∧ s.IsJudged verdicts := by
    intro p hp s hs
    obtain ⟨x, hx, rfl⟩ | ⟨q, hq, -⟩ := mem_of_mem_folds hp hs
    · exact exists_verdictsOn hx
    · cases hq
  have hsteps : (∀ s ∈ steps, s.errorMessage ≠ none → s.result = .error) ↔
      ∀ p ∈ folded, p.step.errorMessage ≠ none → p.step.result = .error := by
    have hmap := List.forall_mem_map (f := TraceStep.outline) (l := steps)
      (P := fun x => x.2.2 ≠ none → x.2.1 = .error)
    rw [houtline, List.forall_mem_map] at hmap
    exact hmap.symm
  refine ⟨houtline, hverdicts, hsteps.trans ⟨?_, ?_⟩⟩
  · rintro hall p hp ⟨s, hs, hmessage⟩
    obtain ⟨verdicts, hon, hjudged⟩ := hverdicts p hp s hs
    obtain ⟨message, hsome⟩ := Option.ne_none_iff_exists'.mp hmessage
    by_cases hempty : message = ""
    · -- folding drops an empty message, but only an exception leaves one
      exact ⟨s, hs, hon.result_eq_error hjudged (hempty ▸ hsome)⟩
    · exact p.result_step_eq_error_iff.mp
        (hall p hp (Folded.errorMessage_step_ne_none hs ⟨message, hsome, hempty⟩))
  · intro hall p hp hmessage
    exact p.result_step_eq_error_iff.mpr (hall p hp (p.exists_errorMessage_ne_none hmessage))

/-! ### A failure that is painted over -/

/-- A first step on whose page a password is wrong at first. -/
def retried : LogInput :=
  movingLog "a" (after 0) "1"
    (wrongPassword ++ [.action Handler.selfAssertedAction, .handlerResult { result := true }])

theorem occurrences_retried :
    supportedLogs {} [retried] = [retried] ∧ occurrences {} [retried] =
      (handlerGroups retried.clips).map fun g => .event retried (.group g) :=
  occurrences_singleton_eq_groups (by decide) rfl rfl rfl (by decide)

/-- The group that closes the step. -/
def doneGroup : HandlerGroup where
  handler := Handler.selfAssertedAction
  predicate := none
  result := some { result := true }
  clips := [.action Handler.selfAssertedAction, .handlerResult { result := true }]
  index := 5

/-- The step has the message of the failure, and the result of what closed it. -/
theorem steps_retried : (rebuild {} [retried]).steps.map (fun s => (s.result, s.errorMessage)) =
    [(.success, some "Invalid username or password.")] := by
  have hstandard := Registry.isStandard_standard ⟨1000, false⟩
  have hsteps := map_steps_rebuildWith (f := fun s : TraceStep => (s.result, s.errorMessage))
    (fun _ _ => rfl) (fun _ _ => rfl) (Registry.standard ⟨1000, false⟩) Pass.standard {} [retried]
  have hgroups : (handlerGroups retried.clips).map (fun g => Occurrence.event retried (.group g)) =
      [.event retried (.group firstGroup)] ++ [.event retried (.group wrongPasswordGroup)] ++
        [.event retried (.group doneGroup)] := rfl
  have hname : shortName doneGroup.handler = "SelfAssertedAttributeProviderActionHandler" :=
    Registry.shortName_ofStateMachine (Registry.not_mem_toList_ofList (by decide))
  have hfirst : Registry.standardNames.findIdx?
      (fun names => names.contains "SelfAssertedAttributeProviderActionHandler") = some 8 := by
    simp [Registry.standardNames, List.findIdx?_cons]
  rw [occurrences_retried.2, hgroups,
    behind_append_of_name hstandard _ _ hname (by decide) hfirst rfl (by decide) rfl,
    behind_append_of_validation hstandard _ _ rfl rfl, behind, occurrences_retried.1] at hsteps
  refine Eq.trans hsteps ?_
  decide

/-- **A failure that is painted over**: that of a validation before the page is done. -/
theorem failure_painted_over :
    ¬ ∀ (settings : TraceSettings) (logs : List LogInput), ∀ s ∈ (rebuild settings logs).steps,
      s.errorMessage ≠ none → s.result = .error := by
  intro h
  obtain ⟨s, hs, hjudged⟩ := List.exists_of_mem_map
    (f := fun s : TraceStep => (s.result, s.errorMessage)) (l := (rebuild {} [retried]).steps)
    (b := (.success, some "Invalid username or password.")) (by rw [steps_retried]; simp)
  obtain ⟨hresult, hmessage⟩ := Prod.mk.inj hjudged
  have herror := h {} [retried] s hs (by simp [hmessage])
  rw [hresult] at herror
  cases herror

end Rebuilding
end TrustFramework
