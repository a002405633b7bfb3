import TrustFramework.Proofs.Trace.Verdicts

/-!
# How interactions go

An open step knows how the interaction with the user went.  A change of state says so unless it is
known, or the change is an error; the validation of a page says so if it failed.  The validation of
an answer says so in any case, and so it alone makes a failed interaction go on.

## Main definitions

* `TraceStep.InteractionFailed` — whether the interaction of a step failed.
* `Rebuilding.Overrules` — an answer that says otherwise.
* `Rebuilding.Becomes` — what an open step is later in a run.

## Main results

* `Interpreter.interaction_cases` — who says how an interaction went.
* `Rebuilding.interaction_of_same_step` — what an occurrence does to the interaction of a step.
* `Rebuilding.interactionFailed_of_becomes` — a failed interaction as long as nothing overrules it.
* `Rebuilding.failed_interaction_stays_iff` — **when a failed interaction stays failed.**
* `Rebuilding.failed_interaction_overruled` — one that does not.
-/

namespace TrustFramework

/-! ### Interpreters -/

namespace Interpreter

theorem interaction_readExchange (handler : String) (r : HandlerResult) :
    (readExchange handler r).interaction = none := by
  unfold readExchange
  dsimp only
  split
  · rfl
  · split
    · rfl
    · split <;> rfl

theorem interaction_readSubJourney (handler : String) (r : HandlerResult) :
    (readSubJourney handler r).interaction = none := by
  unfold readSubJourney
  dsimp only
  split
  · rfl
  · split <;> rfl

theorem interaction_readSession (handler : String) (r : HandlerResult) :
    (readSession handler r).interaction = none := by
  unfold readSession
  dsimp only
  split
  · rfl
  · split
    · rfl
    · split <;> rfl

theorem interaction_readErrorReport (handler : String) (r : HandlerResult) :
    (readErrorReport handler r).interaction = none := by
  unfold readErrorReport
  dsimp only
  split
  · split
    · rfl
    · split <;> rfl
  · rfl

theorem interaction_readDisplayControl (handler : String) (r : HandlerResult) :
    (readDisplayControl handler r).interaction = none := by
  unfold readDisplayControl
  dsimp only
  split <;> rfl

theorem interaction_readOrchestration (m : Orchestration) (c : Context) (r : HandlerResult) :
    (readOrchestration m c r).findings.interaction = none := by
  unfold readOrchestration
  dsimp only
  split
  · rfl
  · split <;> rfl

/-- The validation of a page says that the interaction failed, or nothing. -/
theorem interaction_readSelfAssertedValidation {r : HandlerResult} {x : Interaction}
    (h : (readSelfAssertedValidation r).interaction = some x) :
    x.outcome = Interaction.failed := by
  unfold readSelfAssertedValidation at h
  dsimp only at h
  split at h
  · cases h
  · split at h
    · cases h
    · obtain rfl := Option.some.inj h
      rfl

/-- **Who says how an interaction went**: the validation of a page if it failed, and that of an
answer. -/
theorem interaction_cases {i : Interpreter} {m : Orchestration} {c : Context}
    {outcome : Interpretation} (h : i.interpret m c = some outcome) {x : Interaction}
    (hx : outcome.findings.interaction = some x) :
    x.outcome = Interaction.failed ∨
      i = .responseValidation ∧ ∃ r, c.result = some r ∧ interactionOf? r = some x := by
  unfold interpret at h
  split at h
  · cases h
  · split at h
    · obtain rfl := Option.some.inj h
      cases hx
    · next r hr =>
      split at h
      · obtain rfl := Option.some.inj h
        rw [interaction_readOrchestration] at hx
        cases hx
      · obtain rfl := Option.some.inj h
        cases i with
        | responseValidation => exact Or.inr ⟨rfl, r, hr, hx⟩
        | selfAssertedValidation => exact Or.inl (interaction_readSelfAssertedValidation hx)
        | exchange => simp [read, interaction_readExchange] at hx
        | subJourney => simp [read, interaction_readSubJourney] at hx
        | session => simp [read, interaction_readSession] at hx
        | errorReport => simp [read, interaction_readErrorReport] at hx
        | displayControl => simp [read, interaction_readDisplayControl] at hx
        | _ => cases hx

end Interpreter

/-! ### Steps -/

/-- Whether the interaction of a step failed. -/
def TraceStep.InteractionFailed (s : TraceStep) : Prop :=
  s.interaction.map Interaction.outcome = some Interaction.failed

namespace Rebuilding

theorem interaction_concluded (f : Findings) (s : TraceStep) :
    (concluded f s).interaction = s.interaction :=
  (congrArg TraceStep.interaction (unjudged_concluded f s) :)

/-- What takes findings has the interaction that they tell of, if they do. -/
theorem interaction_takenInto (f : Findings) (claims : Fields String) (s : TraceStep) :
    (f.takenInto claims s).interaction = (f.interaction <|> s.interaction) := by
  unfold Findings.takenInto
  split
  · rw [interaction_concluded, Findings.interaction_applyTo]
  · exact Findings.interaction_applyTo f claims s

/-- No change of state makes a failed interaction go on. -/
theorem interactionFailed_noteTransition {s : TraceStep} (h : s.InteractionFailed)
    (eventName : String) : (noteTransition eventName s).InteractionFailed := by
  have hknown : s.interaction.isNone = false := by
    cases hi : s.interaction with
    | none => simp [TraceStep.InteractionFailed, hi] at h
    | some i => rfl
  unfold noteTransition
  cases transitionOutcome? eventName with
  | none => exact h
  | some outcome =>
    obtain ⟨name, success⟩ := outcome
    by_cases hname : name = Interaction.failed
    · simp [hname, TraceStep.InteractionFailed]
    · simp only [hname, hknown, Bool.false_or, decide_false, Bool.false_eq_true, if_false]
      exact h

/-- What is open or closed after findings is what gave way to a new step, or what took them. -/
theorem exists_taker {t : Rebuilding} {o : Occurrence} {f : Findings} (hfound : t.found? o = some f)
    {v : TraceStep} (hv : (t.undergo o).current = some v ∨ .closed v ∈ t.filed o) :
    f.createStep = true ∧ .closed v ∈ t.closing ∨
      ∃ taker, IsTaker f t.sequence t.current (some taker) ∧ v.sequence = taker.sequence ∧
        v.interaction = (f.interaction <|> taker.interaction) := by
  obtain ⟨-, taker?, htaker, hopen, hfiled⟩ := undergo_of_found? hfound
  have hheader (claims : Fields String) (s : TraceStep) :
      (f.takenInto claims s).sequence = s.sequence :=
    congrArg StepHeader.sequence (header_takenInto f claims s)
  rw [hopen, hfiled] at hv
  rcases hv with hv | hv
  · split at hv
    · cases hv
    · obtain ⟨taker, rfl, rfl⟩ := Option.map_eq_some_iff.mp hv
      exact Or.inr ⟨taker, htaker, hheader _ taker, interaction_takenInto f _ taker⟩
  · rcases List.mem_append.mp hv with hv | hv <;> split at hv
    · next hcreate => exact Or.inl ⟨hcreate, hv⟩
    · cases hv
    · obtain ⟨s, hs, hclosed⟩ := Option.map_eq_some_iff.mp (Option.mem_toList.mp hv)
      obtain ⟨taker, rfl, rfl⟩ := Option.map_eq_some_iff.mp hs
      obtain rfl := Filing.closed.inj hclosed
      have hfiledAs := isFiledAs_snapshot (t.undergo o)
        (f.takenInto (t.statebag.after f).claims taker)
      exact Or.inr ⟨taker, htaker, hfiledAs.sequence.trans (hheader _ taker),
        hfiledAs.interaction.trans (interaction_takenInto f _ taker)⟩
    · cases hv

/-- **What an occurrence does to the interaction of a step.**  It is that of findings if they tell
of one; else it stays, but for a change of state. -/
theorem interaction_of_same_step {t : Rebuilding} {o : Occurrence} {s v : TraceStep}
    (hcurrent : t.current = some s) (hbelow : s.sequence < t.sequence)
    (hv : (t.undergo o).current = some v ∨ .closed v ∈ t.filed o)
    (hsame : v.sequence = s.sequence) :
    (∃ f, t.found? o = some f ∧ f.createStep = false ∧
        v.interaction = (f.interaction <|> s.interaction)) ∨
      v.interaction = s.interaction ∨
      ∃ eventName, v.interaction = (noteTransition eventName s).interaction := by
  cases hfound : t.found? o with
  | none =>
    obtain ⟨-, ⟨log, message, rfl, hnone⟩ | ⟨hfiled, hstays⟩⟩ := undergo_of_found?_eq_none hfound
    · replace hv := hv.resolve_left (by simp [hnone])
      rw [filed, closing_failOpen, hcurrent] at hv
      have hclosed := (List.mem_append.mp hv).resolve_right (by simp)
      obtain rfl := Filing.closed.inj (List.mem_singleton.mp hclosed)
      exact Or.inr (Or.inl (isFiledAs_snapshot t (s.withError message none)).interaction)
    · replace hv := hv.resolve_right (by simp [hfiled])
      rcases hstays with hstays | ⟨log, c, rfl, hnoted⟩
      · rw [hstays, hcurrent] at hv
        obtain rfl := Option.some.inj hv
        exact Or.inr (Or.inl rfl)
      · rw [hnoted, hcurrent] at hv
        obtain rfl := Option.some.inj hv
        exact Or.inr (Or.inr ⟨c.eventName, rfl⟩)
  | some f =>
    rcases exists_taker hfound hv with ⟨-, hclosed⟩ | ⟨taker, htaker, hsequence, hinteraction⟩
    · rw [closing, hcurrent] at hclosed
      obtain rfl := Filing.closed.inj (List.mem_singleton.mp hclosed)
      exact Or.inr (Or.inl (isFiledAs_snapshot t s).interaction)
    · rw [hcurrent] at htaker
      generalize htaken : some taker = taker? at htaker
      cases htaker with
      | @fresh s₀ hcreate hfresh hnumber =>
        -- the new step has another number
        obtain rfl := Option.some.inj htaken
        have hnew : (outcome f s₀).sequence = s₀.sequence :=
          congrArg StepHeader.sequence (header_outcome f s₀)
        omega
      | current hcreate =>
        obtain rfl := Option.some.inj htaken
        rw [interaction_outcomeOfOpen] at hinteraction
        exact Or.inl ⟨f, rfl, hcreate, hinteraction⟩

/-! ### Answers of pages -/

/-- An answer of a page that says otherwise of an interaction that failed. -/
def Overrules (t : Rebuilding) : Occurrence → Prop
  | .event _ (.group g) =>
    (∃ s, t.current = some s ∧ s.InteractionFailed) ∧
      Handler.isCalled Handler.responseValidation g.handler = true ∧
      ∃ r x, g.result = some r ∧ interactionOf? r = some x ∧ x.outcome ≠ Interaction.failed
  | _ => False

/-- Findings that tell of an interaction that went well are those about an answer of a page. -/
theorem overrules_of_found? {t : Rebuilding} (h : t.registry.IsStandard) {o : Occurrence}
    {f : Findings} (hfound : t.found? o = some f) {x : Interaction} (hx : f.interaction = some x)
    (hne : x.outcome ≠ Interaction.failed) {s : TraceStep} (hcurrent : t.current = some s)
    (hs : s.InteractionFailed) : t.Overrules o := by
  obtain ⟨-, log, g, moved, rfl, hdone⟩ := found?_eq_some hfound
  obtain ⟨i, m, outcome, hclaims, hinterpret, rfl⟩ := h.exists_of_done hdone
  obtain hfailed | ⟨rfl, r, hr, hx⟩ := Interpreter.interaction_cases hinterpret hx
  · exact absurd hfailed hne
  · have hcalled : Interpreter.responseValidation.claims g.handler = true :=
      hclaims.resolve_right (by decide)
    refine ⟨⟨s, hcurrent, hs⟩, ?_, r, x, hr, hx, hne⟩
    simpa [Interpreter.claims, Interpreter.handlers] using hcalled

/-- **Step.**  A failed interaction stays failed, unless an answer says otherwise. -/
theorem interactionFailed_of_not_overrules {t : Rebuilding} (h : t.registry.IsStandard)
    {o : Occurrence} (hnot : ¬ t.Overrules o) {s v : TraceStep} (hcurrent : t.current = some s)
    (hs : s.InteractionFailed) (hbelow : s.sequence < t.sequence)
    (hv : (t.undergo o).current = some v ∨ .closed v ∈ t.filed o)
    (hsame : v.sequence = s.sequence) : v.InteractionFailed := by
  unfold TraceStep.InteractionFailed
  obtain ⟨f, hfound, -, hinteraction⟩ | hinteraction | ⟨eventName, hinteraction⟩ :=
    interaction_of_same_step hcurrent hbelow hv hsame
  · rw [hinteraction]
    cases hx : f.interaction with
    | none => exact hs
    | some x =>
      by_contra hne
      have hother : x.outcome ≠ Interaction.failed := by simpa using hne
      exact hnot (overrules_of_found? h hfound hx hother hcurrent hs)
  · rw [hinteraction]
    exact hs
  · rw [hinteraction]
    exact interactionFailed_noteTransition hs eventName

/-- An answer that says otherwise is believed. -/
theorem exists_of_overrules {t : Rebuilding} (h : t.registry.IsStandard) {o : Occurrence}
    (ho : t.Overrules o) : ∃ s v, t.current = some s ∧ s.InteractionFailed ∧
      (t.undergo o).current = some v ∧ v.sequence = s.sequence ∧ ¬ v.InteractionFailed := by
  obtain _ | ⟨log, g | c⟩ | _ := o
  · exact ho.elim
  · obtain ⟨⟨s, hcurrent, hs⟩, hcalled, r, x, hr, hx, hne⟩ := ho
    let f := Interpreter.responseValidation.read (t.contextOf log g) r
    have hfound : t.found? (.event log (.group g)) = some f := by
      rw [found?, h.interpret_responseValidation (c := t.contextOf log g) hcalled hr]
      rfl
    obtain ⟨-, taker?, htaker, hopen, -⟩ := undergo_of_found? hfound
    obtain rfl : taker? = some (outcomeOfOpen f s) := by
      rw [hcurrent] at htaker
      cases htaker with
      | fresh hcreate => cases hcreate
      | current => rfl
    have hv : (t.undergo (.event log (.group g))).current =
        some (f.takenInto (t.statebag.after f).claims (outcomeOfOpen f s)) := hopen
    refine ⟨s, _, hcurrent, hs, hv, ?_, ?_⟩
    · exact sequence_takenInto_outcomeOfOpen f _ s
    · unfold TraceStep.InteractionFailed
      rw [interaction_takenInto, show f.interaction = some x from hx]
      simpa using hne
  · exact ho.elim
  · exact ho.elim

variable {registry : Registry} {settings : TraceSettings} {logs : List LogInput}

/-- The step that is open has a number below the next one. -/
theorem sequence_lt_of_current {past : List Occurrence} (hpast : IsChronological past)
    {s : TraceStep} (hcurrent : (behind registry settings logs past).current = some s) :
    s.sequence < (behind registry settings logs past).sequence := by
  refine (isSuccession_behind hpast).below s.title (List.mem_append_right _ ?_)
  simp [pending, hcurrent]

/-- What is open after an occurrence, or was closed by it, and has a number that is not new was
open before. -/
theorem exists_open_of_sequence_lt {t : Rebuilding} {o : Occurrence} {v : TraceStep}
    (hv : (t.undergo o).current = some v ∨ .closed v ∈ t.filed o)
    (hbelow : v.sequence < t.sequence) :
    ∃ s, t.current = some s ∧ v.sequence = s.sequence := by
  obtain ⟨opened, htitles, -, hopened⟩ := exists_opened t o
  have hmem : v.title ∈ t.pending ++ opened.toList := by
    rw [← htitles]
    rcases hv with hv | hv
    · exact List.mem_append_right _ (by simp [pending, hv])
    · exact List.mem_append_left _ (List.mem_map_of_mem hv)
  rcases List.mem_append.mp hmem with hmem | hmem
  · obtain ⟨s, hs, htitle⟩ := Option.map_eq_some_iff.mp (Option.mem_toList.mp hmem)
    exact ⟨s, hs, congrArg (fun x => x.header.sequence) htitle.symm⟩
  · obtain ⟨log, -, hnext, -⟩ := hopened v.title (Option.mem_toList.mp hmem)
    have hnew : v.sequence = t.sequence := hnext.sequence
    omega

/-- Numbers are not given back. -/
theorem sequence_le_undergo (t : Rebuilding) (o : Occurrence) :
    t.sequence ≤ (t.undergo o).sequence := by
  obtain ⟨opened, -, hsequence, -⟩ := exists_opened t o
  omega

section

variable (registry settings logs)

/-- What an open step is after some more occurrences: it has its number, and is still open or was
filed in the course of them. -/
def Becomes (past more : List Occurrence) (s v : TraceStep) : Prop :=
  v.sequence = s.sequence ∧
    ((behind registry settings logs (past ++ more)).current = some v ∨
      .closed v ∈ (behind registry settings logs past).filings more)

end

/-- **Run.**  A failed interaction stays failed as long as no answer says otherwise. -/
theorem interactionFailed_of_becomes (hstandard : registry.IsStandard)
    {past more : List Occurrence} {s : TraceStep}
    (hcurrent : (behind registry settings logs past).current = some s) (hs : s.InteractionFailed)
    (hbelow : s.sequence < (behind registry settings logs past).sequence)
    (hnever : ∀ earlier o later, more = earlier ++ o :: later →
      ¬ (behind registry settings logs (past ++ earlier)).Overrules o) :
    s.sequence < (behind registry settings logs (past ++ more)).sequence ∧
      ∀ v, Becomes registry settings logs past more s v → v.InteractionFailed := by
  -- from the end, with the number, by which no later step is taken for this one
  induction more using List.reverseRecOn with
  | nil =>
    rw [List.append_nil]
    refine ⟨hbelow, ?_⟩
    rintro v ⟨-, hv | hv⟩
    · rw [List.append_nil, hcurrent] at hv
      obtain rfl := Option.some.inj hv
      exact hs
    · cases hv
  | append_singleton more o ih =>
    obtain ⟨hbelow, ih⟩ := ih fun earlier o' later hmore =>
      hnever earlier o' (later ++ [o]) (by simp [hmore])
    have hfold : more.foldl undergo (behind registry settings logs past) =
        behind registry settings logs (past ++ more) := List.foldl_append.symm
    have hgrows := sequence_le_undergo (behind registry settings logs (past ++ more)) o
    unfold Becomes
    rw [← List.append_assoc, behind_append_singleton, filings_append_singleton, hfold]
    refine ⟨by omega, ?_⟩
    rintro v ⟨hsame, hv⟩
    by_cases hearlier : .closed v ∈ (behind registry settings logs past).filings more
    · exact ih v ⟨hsame, Or.inr hearlier⟩
    · -- the step was open still, so that it had failed
      replace hv := hv.imp_right fun h => (List.mem_append.mp h).resolve_left hearlier
      obtain ⟨u, hopen, hnumber⟩ := exists_open_of_sequence_lt hv (hsame ▸ hbelow)
      have hu : u.InteractionFailed := ih u ⟨hnumber.symm.trans hsame, Or.inl hopen⟩
      exact interactionFailed_of_not_overrules (isStandard_behind hstandard _)
        (hnever more o [] rfl) hopen hu (by omega) hv hnumber

/-- **When a failed interaction stays failed.**  Once the interaction of the open step failed, it
stays failed in the further course of every run until the step is filed, exactly if in no part of
the run an answer of a page says otherwise. -/
theorem failed_interaction_stays_iff (hstandard : registry.IsStandard) (settings : TraceSettings)
    (logs : List LogInput) :
    (∀ past more rest, occurrences settings logs = past ++ (more ++ rest) →
      ∀ s, (behind registry settings logs past).current = some s → s.InteractionFailed →
      ∀ v, Becomes registry settings logs past more s v → v.InteractionFailed) ↔
    ∀ past o rest, occurrences settings logs = past ++ o :: rest →
      ¬ (behind registry settings logs past).Overrules o := by
  constructor
  · intro hstays past o rest hrun ho
    obtain ⟨s, v, hcurrent, hs, hv, hsame, hnot⟩ :=
      exists_of_overrules (isStandard_behind hstandard past) ho
    rw [← behind_append_singleton] at hv
    exact hnot (hstays past [o] rest hrun s hcurrent hs v ⟨hsame, Or.inl hv⟩)
  · intro hnever past more rest hrun s hcurrent hs v hv
    have hpast : IsChronological past := by
      have hall := isChronological_occurrences settings logs
      rw [hrun, IsChronological, List.filterMap_append] at hall
      exact hall.sublist (List.sublist_append_left _ _)
    refine (interactionFailed_of_becomes hstandard hcurrent hs
      (sequence_lt_of_current hpast hcurrent) fun earlier o later hmore => ?_).2 v hv
    exact hnever (past ++ earlier) o (later ++ rest) (by simp [hrun, hmore])

/-- A wrong password stays one until the page is done. -/
theorem failed_interaction_stays_retried :
    let registry := Registry.standard ⟨1000, false⟩
    registry.IsStandard ∧
      ∀ past more rest, occurrences {} [retried] = past ++ (more ++ rest) →
        ∀ s, (behind registry {} [retried] past).current = some s → s.InteractionFailed →
        ∀ v, Becomes registry {} [retried] past more s v → v.InteractionFailed := by
  intro registry
  have hstandard : registry.IsStandard := Registry.isStandard_standard ⟨1000, false⟩
  refine ⟨hstandard, (failed_interaction_stays_iff hstandard {} [retried]).mpr ?_⟩
  intro past o rest hrun ho
  have hnone : ∀ g ∈ handlerGroups retried.clips,
      Handler.isCalled Handler.responseValidation g.handler = false := by decide
  have hmem : o ∈ occurrences {} [retried] := by simp [hrun]
  rw [occurrences_retried.2] at hmem
  obtain ⟨g, hg, rfl⟩ := List.mem_map.mp hmem
  exact absurd ho.2.1 (by simp [hnone g hg])

/-! ### A failed interaction that goes on -/

/-- An answer that an interaction went well. -/
def goesOn : HandlerResult where
  result := true
  statebag := [("Complex-API_RESULT", .object [("IsContinue", .text "true")])]

/-- A first step on whose page a password is wrong, and that goes on. -/
def overruled : LogInput :=
  movingLog "a" (after 0) "1"
    (wrongPassword ++ [.action Handler.responseValidation, .handlerResult goesOn])

/-- What happens before it goes on. -/
def beforeAnswer : List Occurrence :=
  ((handlerGroups overruled.clips).take 2).map fun g => .event overruled (.group g)

/-- The answer. -/
def answer : HandlerGroup where
  handler := Handler.responseValidation
  predicate := none
  result := some goesOn
  clips := [.action Handler.responseValidation, .handlerResult goesOn]
  index := 5

theorem occurrences_overruled :
    supportedLogs {} [overruled] = [overruled] ∧ occurrences {} [overruled] =
      beforeAnswer ++ [.event overruled (.group answer)] :=
  occurrences_singleton_eq_groups (by decide) rfl rfl rfl (by decide)

/-- The answer says otherwise of the interaction of the step. -/
theorem overrules_answer :
    (behind (Registry.standard ⟨1000, false⟩) {} [overruled] beforeAnswer).Overrules
      (.event overruled (.group answer)) := by
  have hfailed : (behind (Registry.standard ⟨1000, false⟩) {} [overruled] beforeAnswer).current.map
      (fun s => s.interaction.map Interaction.outcome) = some (some Interaction.failed) := by
    have hgroups : beforeAnswer = [.event overruled (.group firstGroup)] ++
        [.event overruled (.group wrongPasswordGroup)] := rfl
    rw [hgroups, behind_append_of_validation (Registry.isStandard_standard _) _ _ rfl rfl, behind,
      occurrences_overruled.1]
    decide
  obtain ⟨s, hcurrent, hs⟩ := Option.map_eq_some_iff.mp hfailed
  exact ⟨⟨s, hcurrent, hs⟩, by decide, goesOn, ⟨Interaction.continued, true, none, none⟩,
    rfl, by decide +kernel, by decide +kernel⟩

/-- **A failed interaction that goes on**: that of a page with a wrong password. -/
theorem failed_interaction_overruled :
    ¬ ∀ (settings : TraceSettings) (logs : List LogInput) (past more rest : List Occurrence)
      (s v : TraceStep),
      let registry := Registry.standard settings.orchestrationReset
      occurrences settings logs = past ++ (more ++ rest) →
      (behind registry settings logs past).current = some s → s.InteractionFailed →
      Becomes registry settings logs past more s v → v.InteractionFailed := by
  intro h
  have hstandard := Registry.isStandard_standard ⟨1000, false⟩
  obtain ⟨s, v, hcurrent, hs, hv, hsame, hnot⟩ :=
    exists_of_overrules (isStandard_behind hstandard beforeAnswer) overrules_answer
  rw [← behind_append_singleton] at hv
  exact hnot (h {} [overruled] beforeAnswer _ [] s v occurrences_overruled.2 hcurrent hs
    ⟨hsame, Or.inl hv⟩)

end Rebuilding
end TrustFramework
