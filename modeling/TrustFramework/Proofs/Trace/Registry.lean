import TrustFramework.Proofs.Entity.Collection
import TrustFramework.Trace.Registry

/-!
# The registry while a trace goes on

Interpreting groups changes what the registry notes and what its interpreters remember,
and nothing else: the notes stay right, the interpreters stay the standard ones, and only
groups of the orchestration change what the orchestration remembers.

## Main definitions

* `Registry.HasRightNotes` — notes say the places of the interpreters that claim their handlers.
* `Registry.IsStandard` — the standard interpreters with right notes.
* `Registry.orchestration?` — what the orchestration remembers.
* `Registry.standardNames` — the names in short of the handlers that interpreters claim.

## Main results

* `HasRightNotes.locate_snd` — notes say what a search would find.
* `IsStandard.place?_eq_zero_iff` — the groups that the orchestration gets.
* `IsStandard.interpret` — a registry stays standard.
* `IsStandard.interpret_orchestration`, `IsStandard.interpret_other` — what becomes of a
  group of the orchestration, and that no other group matters to it.
* `IsStandard.search?_of_name`, `IsStandard.interpret_of_name` — a group is for the first
  interpreter with a handler that is called alike.
-/

namespace TrustFramework

/-- What is seen of a list changes with an element of it as that element does. -/
theorem map_modify {α β : Type} {seen : α → β} {change : α → α} {change' : β → β}
    (h : ∀ x, seen (change x) = change' (seen x)) (xs : List α) (i : Nat) :
    (xs.modify i change).map seen = (xs.map seen).modify i change' := by
  induction xs generalizing i with
  | nil => simp
  | cons x xs ih =>
    cases i with
    | zero => simp [h]
    | succ i => simp [ih]

namespace Registry

/-- Every note says the place of the first interpreter that claims its handler. -/
def HasRightNotes (r : Registry) : Prop :=
  ∀ handler i, r.notes.get? handler = some i → r.place? handler = some i

/-- The standard interpreters, whatever they remember, with right notes. -/
structure IsStandard (r : Registry) : Prop where
  interpreters : r.entries.map Registered.interpreter = Interpreter.standard
  fallback : r.fallback.map Registered.interpreter = some .statebagOnly
  /-- A note says the place of the first interpreter that claims its handler. -/
  notes : ∀ handler i, r.notes.get? handler = some i → r.place? handler = some i

/-- What the first interpreter remembers, which is that of the orchestration. -/
def orchestration? (r : Registry) : Option Orchestration := r.entries.head?.map Registered.memory

theorem place?_eq (r : Registry) (handler : String) :
    r.place? handler =
      (r.entries.map Registered.interpreter).findIdx? fun i => i.claims handler := by
  rw [List.findIdx?_map]
  rfl

theorem place?_congr {r s : Registry}
    (h : r.entries.map Registered.interpreter = s.entries.map Registered.interpreter)
    (handler : String) : r.place? handler = s.place? handler := by
  rw [place?_eq, place?_eq, h]

theorem isStandard_standard (reset : Milliseconds) : (standard reset).IsStandard where
  interpreters := rfl
  fallback := rfl
  notes := by
    intro handler i h
    simp [standard] at h

/-- Notes stay right as long as the interpreters stay. -/
theorem HasRightNotes.congr {r s : Registry} (h : r.HasRightNotes) (hnotes : s.notes = r.notes)
    (hsame : s.entries.map Registered.interpreter = r.entries.map Registered.interpreter) :
    s.HasRightNotes := by
  intro handler i hnote
  rw [hnotes] at hnote
  rw [place?_congr hsame]
  exact h handler i hnote

theorem interpreters_forgotten (r : Registry) :
    r.forgotten.entries.map Registered.interpreter = r.entries.map Registered.interpreter := by
  rw [forgotten, List.map_map]
  rfl

/-- Forgetting changes what is remembered, and nothing else. -/
theorem IsStandard.forgotten {r : Registry} (h : r.IsStandard) : r.forgotten.IsStandard where
  interpreters := (interpreters_forgotten r).trans h.interpreters
  fallback := h.fallback
  notes := HasRightNotes.congr h.notes rfl (interpreters_forgotten r)

theorem orchestration?_forgotten (r : Registry) :
    r.forgotten.orchestration? = r.orchestration?.map fun m => { reset := m.reset } := by
  rw [orchestration?, orchestration?, Registry.forgotten, List.head?_map, Option.map_map,
    Option.map_map]
  rfl

/-! ### Notes -/

theorem entries_locate (r : Registry) (handler : String) :
    (r.locate handler).1.entries = r.entries := by
  unfold locate
  split
  · rfl
  · split <;> rfl

theorem fallback_locate (r : Registry) (handler : String) :
    (r.locate handler).1.fallback = r.fallback := by
  unfold locate
  split
  · rfl
  · split <;> rfl

/-- **Notes say what a search would find.** -/
theorem HasRightNotes.locate_snd {r : Registry} (h : r.HasRightNotes) (handler : String) :
    (r.locate handler).2 = r.place? handler := by
  unfold Registry.locate
  split
  · next i hnote => exact (h handler i hnote).symm
  · split
    · next i hplace => exact hplace.symm
    · next hplace => exact hplace.symm

/-- New notes are right. -/
theorem HasRightNotes.locate {r : Registry} (h : r.HasRightNotes) (handler : String) :
    (r.locate handler).1.HasRightNotes := by
  intro other i hnote
  rw [place?_congr (congrArg _ (entries_locate r handler))]
  unfold Registry.locate at hnote
  split at hnote
  · exact h other i hnote
  · split at hnote
    · next place hplace =>
      -- the only new note is that of the handler that was searched for
      by_cases heq : other = handler
      · subst heq
        rw [Fields.get?_set_self] at hnote
        rw [← hnote]
        exact hplace
      · rw [Fields.get?_set_of_ne _ _ heq] at hnote
        exact h other i hnote
    · exact h other i hnote

theorem IsStandard.locate_snd {r : Registry} (h : r.IsStandard) (handler : String) :
    (r.locate handler).2 = r.place? handler := HasRightNotes.locate_snd h.notes handler

theorem IsStandard.locate_fst {r : Registry} (h : r.IsStandard) (handler : String) :
    (r.locate handler).1.IsStandard := by
  refine ⟨?_, ?_, HasRightNotes.locate h.notes handler⟩
  · rw [entries_locate]
    exact h.interpreters
  · rw [fallback_locate]
    exact h.fallback

theorem orchestration?_locate (r : Registry) (handler : String) :
    (r.locate handler).1.orchestration? = r.orchestration? := by
  rw [orchestration?, entries_locate, orchestration?]

/-! ### What interpreters remember -/

theorem interpreters_remember (r : Registry) (i : Option Nat) (m : Orchestration) :
    (r.remember i m).entries.map Registered.interpreter =
      r.entries.map Registered.interpreter := by
  cases i with
  | none => rfl
  | some i =>
    have hsame (e : Registered) :
        ({ e with memory := m } : Registered).interpreter = id e.interpreter := rfl
    exact (map_modify hsame r.entries i).trans (List.modify_id i _)

theorem IsStandard.remember {r : Registry} (h : r.IsStandard) (i : Option Nat)
    (m : Orchestration) : (r.remember i m).IsStandard := by
  have hsame := interpreters_remember r i m
  refine ⟨hsame.trans h.interpreters, ?_, HasRightNotes.congr h.notes (by cases i <;> rfl) hsame⟩
  cases i with
  | none =>
    rw [Registry.remember, Option.map_map]
    exact h.fallback
  | some i => exact h.fallback

/-- Only the first interpreter remembers for the orchestration. -/
theorem orchestration?_remember (r : Registry) (i : Option Nat) (m : Orchestration) :
    (r.remember i m).orchestration? =
      if i = some 0 then r.orchestration?.map fun _ => m else r.orchestration? := by
  cases i with
  | none => rfl
  | some i =>
    show (r.entries.modify i fun e => { e with memory := m }).head?.map Registered.memory = _
    rw [orchestration?]
    cases r.entries with
    | nil => simp
    | cons e entries => cases i <;> simp

/-! ### Interpreting -/

/-- The groups that the orchestration gets: those of handlers called by its name. -/
theorem IsStandard.place?_eq_zero_iff {r : Registry} (h : r.IsStandard) {handler : String} :
    r.place? handler = some 0 ↔ Handler.isCalled Handler.orchestration handler = true := by
  have hclaims : Interpreter.orchestration.claims handler =
      Handler.isCalled Handler.orchestration handler := by
    simp [Interpreter.claims, Interpreter.handlers]
  rw [place?_eq, h.interpreters, Interpreter.standard, List.findIdx?_cons, hclaims]
  cases Handler.isCalled Handler.orchestration handler <;> simp

/-- The first interpreter is that of the orchestration. -/
theorem IsStandard.head?_entries {r : Registry} (h : r.IsStandard) :
    ∃ m, r.entries.head? = some ⟨.orchestration, m⟩ ∧ r.orchestration? = some m := by
  have hinterpreters := h.interpreters
  rw [orchestration?]
  cases hentries : r.entries with
  | nil => simp [hentries, Interpreter.standard] at hinterpreters
  | cons e entries =>
    rw [hentries, Interpreter.standard, List.map_cons, List.cons.injEq] at hinterpreters
    refine ⟨e.memory, ?_, rfl⟩
    rw [← hinterpreters.1]
    rfl

/-- **A registry stays standard.** -/
theorem IsStandard.interpret {r : Registry} (h : r.IsStandard) (c : Context) :
    (r.interpret c).1.IsStandard := by
  unfold Registry.interpret
  split
  next r' i hlocate =>
  have hr' : r'.IsStandard := by
    have := h.locate_fst c.handler
    rwa [hlocate] at this
  split
  · exact hr'
  · split
    · exact hr'
    · exact hr'.remember _ _

/-- A group of the orchestration is interpreted by the orchestration. -/
theorem IsStandard.interpret_eq {r : Registry} (h : r.IsStandard) {c : Context}
    (hcalled : Handler.isCalled Handler.orchestration c.handler = true) {m : Orchestration}
    (hm : r.orchestration? = some m) :
    r.interpret c =
      match Interpreter.orchestration.interpret m c with
      | none => ((r.locate c.handler).1, .failed)
      | some outcome => ((r.locate c.handler).1.remember (some 0) outcome.memory,
          .done outcome.findings outcome.moved) := by
  obtain ⟨m', hhead, hm'⟩ := h.head?_entries
  obtain rfl : m' = m := Option.some.inj (hm'.symm.trans hm)
  have hplace : (r.locate c.handler).2 = some 0 :=
    (h.locate_snd c.handler).trans (h.place?_eq_zero_iff.mpr hcalled)
  have hentry : ((r.locate c.handler).2.bind fun i => (r.locate c.handler).1.entries[i]?) =
      some ⟨.orchestration, m'⟩ := by
    rw [hplace, Option.bind_some, entries_locate, ← List.head?_eq_getElem?]
    exact hhead
  unfold Registry.interpret
  split
  next r' i hlocate =>
  rw [hlocate] at hplace hentry ⊢
  obtain rfl : i = some 0 := hplace
  rw [show (some 0).bind (fun i => r'.entries[i]?) = some ⟨.orchestration, m'⟩ from hentry]
  rfl

/-- What becomes of a group of the orchestration that has a result. -/
theorem IsStandard.interpret_orchestration {r : Registry} (h : r.IsStandard) {c : Context}
    (hcalled : Handler.isCalled Handler.orchestration c.handler = true) {m : Orchestration}
    (hm : r.orchestration? = some m) {result : HandlerResult} (hresult : c.result = some result) :
    let reading := Interpreter.readOrchestration m c result
    (r.interpret c).2 = .done reading.findings reading.moved ∧
      (r.interpret c).1.orchestration? = some reading.memory := by
  have hread : Interpreter.orchestration.interpret m c =
      some (Interpreter.readOrchestration m c result) := by
    simp [Interpreter.interpret, hresult]
  rw [h.interpret_eq hcalled hm, hread]
  refine ⟨rfl, ?_⟩
  rw [orchestration?_remember, if_pos rfl, orchestration?_locate, hm]
  rfl

/-- **No other group matters to the orchestration**, nor one of its own without a result. -/
theorem IsStandard.interpret_other {r : Registry} (h : r.IsStandard) {c : Context}
    (hother : Handler.isCalled Handler.orchestration c.handler = false ∨ c.result = none) :
    (r.interpret c).1.orchestration? = r.orchestration? := by
  cases hcalled : Handler.isCalled Handler.orchestration c.handler with
  | true =>
    -- without a result the orchestration is asked, and remembers what it did before
    have hnone : c.result = none := by simpa [hcalled] using hother
    obtain ⟨m, -, hm⟩ := h.head?_entries
    have hread : Interpreter.orchestration.interpret m c = some ⟨{}, m, none⟩ := by
      simp [Interpreter.interpret, hnone]
    rw [h.interpret_eq hcalled hm, hread]
    show ((r.locate c.handler).1.remember (some 0) m).orchestration? = _
    rw [orchestration?_remember, if_pos rfl, orchestration?_locate, hm]
    rfl
  | false =>
    -- another interpreter remembers, or none does
    have hplace : (r.locate c.handler).2 ≠ some 0 := by
      rw [h.locate_snd, Ne, h.place?_eq_zero_iff, hcalled]
      exact Bool.false_ne_true
    unfold Registry.interpret
    split
    next r' i hlocate =>
    have horchestration : r'.orchestration? = r.orchestration? := by
      have := orchestration?_locate r c.handler
      rwa [hlocate] at this
    rw [hlocate] at hplace
    split
    · exact horchestration
    · split
      · exact horchestration
      · rw [orchestration?_remember, if_neg hplace]
        exact horchestration

/-! ### Names of handlers -/

/-- Behind the last occurrence of a character stands what has none of it. -/
theorem afterLast_append {c : Char} {start rest : String} (hstart : start.toList.getLast? = some c)
    (hrest : c ∉ rest.toList) : Text.afterLast c (start ++ rest) = rest := by
  obtain ⟨before, hbefore⟩ := List.getLast?_eq_some_iff.mp hstart
  have hreverse : (start ++ rest).toList.reverse =
      rest.toList.reverse ++ c :: before.reverse := by simp [hbefore]
  have hnone : ∀ x ∈ rest.toList.reverse, decide (x ≠ c) = true := by
    intro x hx
    rw [List.mem_reverse] at hx
    exact decide_eq_true fun h => hrest (h ▸ hx)
  rw [Text.afterLast, Text.atLast?, hreverse, List.dropWhile_append_of_pos hnone,
    List.takeWhile_append_of_pos hnone]
  simp

/-- A character is not in a text if it is not in the list that makes it.  A text that stands in the
source is made of a list. -/
theorem not_mem_toList_ofList {c : Char} {cs : List Char} (h : c ∉ cs) :
    c ∉ (String.ofList cs).toList := by
  rwa [String.toList_ofList]

theorem shortName_ofStateMachine {name : String} (h : '.' ∉ name.toList) :
    shortName (Handler.ofStateMachine name) = name := afterLast_append (by decide) h

theorem shortName_ofSession {name : String} (h : '.' ∉ name.toList) :
    shortName (Handler.ofSession name) = name := afterLast_append (by decide) h

theorem shortName_pageManager : shortName Handler.pageManager = "ApiUIManager" := by
  decide

theorem shortName_orchestration : shortName Handler.orchestration = "OrchestrationManager" := by
  decide

/-! ### The interpreter of a group -/

theorem search?_eq (r : Registry) (handler : String) :
    r.search? handler = (r.place? handler).bind fun i => r.entries[i]? :=
  List.find?_eq_bind_findIdx?_getElem?

/-- **A group is interpreted by the first interpreter that claims it**, or else by the one for
handlers that none claims. -/
theorem IsStandard.interpret_snd {r : Registry} (h : r.IsStandard) (c : Context) :
    (r.interpret c).2 =
      match r.search? c.handler <|> r.fallback with
      | none => .skipped
      | some e =>
        match e.interpreter.interpret e.memory c with
        | none => .failed
        | some outcome => .done outcome.findings outcome.moved := by
  have hplace := h.locate_snd c.handler
  have hentries := entries_locate r c.handler
  have hfallback := fallback_locate r c.handler
  rw [search?_eq]
  unfold Registry.interpret
  split
  next r' i hlocate =>
  rw [hlocate] at hplace hentries hfallback
  rw [← hplace, ← hentries, ← hfallback]
  dsimp only
  cases (i.bind fun i => r'.entries[i]?) <|> r'.fallback with
  | none => rfl
  | some e =>
    dsimp only
    cases e.interpreter.interpret e.memory c <;> rfl

/-- Findings are those of an interpreter that claims the group, or of the one for handlers that
none claims. -/
theorem IsStandard.exists_of_done {r : Registry} (h : r.IsStandard) {c : Context} {f : Findings}
    {moved : Option Int} (hdone : (r.interpret c).2 = .done f moved) :
    ∃ (i : Interpreter) (m : Orchestration) (outcome : Interpretation),
      (i.claims c.handler = true ∨ i = .statebagOnly) ∧ i.interpret m c = some outcome ∧
        outcome.findings = f := by
  rw [h.interpret_snd] at hdone
  split at hdone
  · cases hdone
  · next e hsearch =>
    split at hdone
    · cases hdone
    · next outcome hinterpret =>
      obtain ⟨hfindings, -⟩ := Reading.done.inj hdone
      refine ⟨e.interpreter, e.memory, outcome, ?_, hinterpret, hfindings⟩
      cases hfound : r.search? c.handler with
      | some e' =>
        obtain rfl : e' = e := by simpa [hfound] using hsearch
        have hclaims := List.find?_some (show r.entries.find? _ = some e' from hfound)
        exact Or.inl hclaims
      | none =>
        have hfallback : r.fallback = some e := by simpa [hfound] using hsearch
        have hinterpreter := h.fallback
        rw [hfallback] at hinterpreter
        exact Or.inr (Option.some.inj hinterpreter)

/-- The names in short of the handlers that the standard interpreters claim, one interpreter after
the other. -/
def standardNames : List (List String) :=
  [["OrchestrationManager"], ["ShouldOrchestrationStepBeInvokedHandler"],
    ["ClaimsExchangeActionHandler", "ClaimsExchangeRedirectHandler", "ClaimsExchangeSubmitHandler",
      "ClaimsExchangeSelectHandler"],
    ["InputClaimsTransformationHandler", "OutputClaimsTransformationHandler",
      "PersistedClaimsTransformationHandler", "ClientInputClaimsTransformationHandler",
      "ClaimsTransformationActionHandler"],
    ["HomeRealmDiscoveryHandler", "HomeRealmDiscoveryActionHandler"],
    ["EnqueueNewJourneyHandler", "SubJourneyDispatchActionHandler",
      "SubJourneyTransferActionHandler", "SubJourneyExitActionHandler"],
    ["SelfAssertedAttributeProviderRedirectHandler"], ["SelfAssertedMessageValidationHandler"],
    ["SelfAssertedAttributeProviderActionHandler"],
    ["SendClaimsHandler", "SendClaimsActionHandler", "SendRelyingPartyResponseHandler",
      "SendResponseHandler"],
    ["ValidateApiResponseHandler"],
    ["IsClaimsExchangeProtocolAServiceCallHandler", "IsClaimsExchangeProtocolARedirectionHandler",
      "IsClaimsExchangeProtocolAnApiHandler"],
    ["ResetSSOSessionHandler", "IsSSOSessionParticipantHandler", "SSOSessionHandler",
      "ActivateSSOSessionHandler"],
    ["ApiUIManager"], ["InitiatingMessageValidationHandler", "SendErrorHandler"],
    ["IsDisplayControlActionRequestHandler", "SendDisplayControlActionResponseHandler",
      "IsClaimVerificationRequestHandler"]]

theorem map_shortName_handlers_standard :
    Interpreter.standard.map (fun i => i.handlers.map shortName) = standardNames := by
  -- the letters of a name are read off the list that makes it
  simp (disch := exact not_mem_toList_ofList (by decide)) only [Interpreter.standard,
    Interpreter.handlers, List.map_cons, List.map_nil, shortName_orchestration,
    shortName_ofStateMachine, shortName_ofSession, shortName_pageManager, Handler.stepInvocation,
    Handler.exchanges, Handler.exchangeAction, Handler.exchangeRedirect, Handler.exchangeSubmit,
    Handler.exchangeSelect, Handler.transformations, Handler.realmDiscovery,
    Handler.realmDiscoveryAction, Handler.subJourneys, Handler.subJourneyDispatch,
    Handler.subJourneyTransfer, Handler.subJourneyExit, Handler.selfAssertedRedirect,
    Handler.selfAssertedValidation, Handler.selfAssertedAction, Handler.completions,
    Handler.responseValidation, Handler.protocolProbes, Handler.sessions, Handler.sessionReset,
    Handler.sessionParticipant, Handler.sessionActivation, Handler.errors, Handler.sendError,
    Handler.displayControls, Handler.controlResponse, Handler.claimVerification, standardNames]

/-- An interpreter claims a handler if one of its own is called alike, and only the one for errors
claims others. -/
theorem claims_eq (i : Interpreter) (handler : String) :
    i.claims handler = ((i.handlers.map shortName).contains (shortName handler) ||
      (i = .errorReport && i.handlers.any fun name => Handler.occursIn name handler)) := by
  rw [List.contains_eq_any_beq, List.any_map, Interpreter.claims]
  rfl

/-- The names of one of the standard interpreters. -/
theorem getElem?_standardNames {n : Nat} {i : Interpreter} (h : Interpreter.standard[n]? = some i) :
    standardNames[n]? = some (i.handlers.map shortName) := by
  rw [← map_shortName_handlers_standard, List.getElem?_map, h]
  rfl

/-- **A group is for the first of the standard interpreters with a handler that is called alike**,
unless that for errors stands before it. -/
theorem IsStandard.search?_of_name {r : Registry} (h : r.IsStandard) {handler name : String}
    (hname : shortName handler = name) {n : Nat} (hn : n ≤ 14)
    (hfirst : standardNames.findIdx? (fun names => names.contains name) = some n)
    {i : Interpreter} (hi : Interpreter.standard[n]? = some i) :
    (r.search? handler).map Registered.interpreter = some i := by
  subst hname
  obtain ⟨hlt, hcalled, hbefore⟩ := List.findIdx?_eq_some_iff_getElem.mp hfirst
  have hclaims : i.claims handler = true := by
    obtain ⟨hlt, hnames⟩ := List.getElem?_eq_some_iff.mp (getElem?_standardNames hi)
    rw [claims_eq, ← hnames, hcalled, Bool.true_or]
  have hnone : ∀ (k : Nat) (j : Interpreter), k < n → Interpreter.standard[k]? = some j →
      j.claims handler = false := by
    intro k j hk hj
    obtain ⟨hlt', hnames⟩ := List.getElem?_eq_some_iff.mp (getElem?_standardNames hj)
    have hother : j ≠ .errorReport := by
      have herrors : ∀ k < 14, Interpreter.standard[k]? ≠ some .errorReport := by decide
      exact fun heq => herrors k (by omega) (heq ▸ hj)
    have hnot := hbefore k hk
    rw [claims_eq, ← hnames, decide_eq_false hother, Bool.false_and, Bool.or_false]
    simpa using hnot
  have hsearch : Interpreter.standard.find? (fun i => i.claims handler) = some i := by
    obtain ⟨hlt', hget⟩ := List.getElem?_eq_some_iff.mp hi
    refine List.find?_eq_some_iff_getElem.mpr ⟨hclaims, n, hlt', hget, fun k hk => ?_⟩
    rw [hnone k _ hk (List.getElem?_eq_getElem _)]
    rfl
  rw [← hsearch, ← h.interpreters, List.find?_map]
  rfl

/-- What becomes of a group that has a result, and an interpreter that remembers nothing. -/
theorem IsStandard.interpret_of_name {r : Registry} (h : r.IsStandard) {c : Context}
    {name : String} (hname : shortName c.handler = name) {n : Nat} (hn : n ≤ 14)
    (hfirst : standardNames.findIdx? (fun names => names.contains name) = some n)
    {i : Interpreter} (hi : Interpreter.standard[n]? = some i) (hother : i ≠ .orchestration)
    {result : HandlerResult} (hresult : c.result = some result) :
    (r.interpret c).2 = .done (i.read c result) none := by
  have hblank : i ≠ .blank := by
    have hall : ∀ j ∈ Interpreter.standard, j ≠ .blank := by decide
    exact hall i (List.mem_of_getElem? hi)
  obtain ⟨e, he, rfl⟩ := Option.map_eq_some_iff.mp (h.search?_of_name hname hn hfirst hi)
  rw [h.interpret_snd, he]
  show (match e.interpreter.interpret e.memory c with | none => _ | some outcome => _) = _
  simp [Interpreter.interpret, hresult, hblank, hother]

/-- What becomes of an answer of a page that has a result. -/
theorem IsStandard.interpret_responseValidation {r : Registry} (h : r.IsStandard) {c : Context}
    (hcalled : Handler.isCalled Handler.responseValidation c.handler = true)
    {result : HandlerResult} (hresult : c.result = some result) :
    (r.interpret c).2 = .done (Interpreter.responseValidation.read c result) none := by
  have hname : shortName c.handler = "ValidateApiResponseHandler" :=
    (of_decide_eq_true hcalled).trans
      (shortName_ofStateMachine (not_mem_toList_ofList (by decide)))
  exact h.interpret_of_name hname (n := 10) (by decide)
    (by simp [standardNames, List.findIdx?_cons]) rfl (by decide) hresult

end Registry

end TrustFramework
