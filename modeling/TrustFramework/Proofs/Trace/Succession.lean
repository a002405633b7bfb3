import TrustFramework.Proofs.Trace.Filing

/-!
# Steps in the order of their numbers

A step is opened with the next number and the time of its log, and no other is opened before it
is filed.  Since logs are taken in the order of their times, steps are filed in the order of their
numbers and of their times alike.

A step that stands for an exception is known by its node, which no step that was opened for a
group can have.

## Main definitions

* `StepTitle`, `TraceStep.title` — the header of a step and the node it has once it is closed.
* `TraceStep.IsFatal` — whether a step stands for an exception.
* `IsChronological` — occurrences in the order of their times.

## Main results

* `Rebuilding.exists_opened` — an occurrence opens one step at most, and files what was open
  before.
* `Rebuilding.isSuccession_behind` — **steps are filed in the order of their numbers and times.**
* `isChronological_occurrences` — logs are taken in the order of their times.
-/

namespace TrustFramework

/-! ### Times -/

/-- The log of an occurrence; of a clip that cannot be read there is a line only. -/
def Occurrence.log? : Occurrence → Option LogInput
  | malformed _ => none
  | event log _ => some log
  | fatal log _ => some log

/-- Occurrences in the order of their times. -/
def IsChronological (past : List Occurrence) : Prop :=
  (past.filterMap Occurrence.log?).Pairwise fun a b => a.timestamp.instant ≤ b.timestamp.instant

theorem isChronological_append_singleton {past : List Occurrence} {o : Occurrence}
    (h : IsChronological (past ++ [o])) :
    IsChronological past ∧ ∀ log ∈ past.filterMap Occurrence.log?, ∀ last, o.log? = some last →
      log.timestamp.instant ≤ last.timestamp.instant := by
  rw [IsChronological, List.filterMap_append, List.pairwise_append] at h
  refine ⟨h.1, fun log hlog last hlast => h.2.2 log hlog last ?_⟩
  simp [hlast]

/-- What happens in a log happens at its time. -/
theorem LogInput.log?_of_mem_occurrences {log : LogInput} {o : Occurrence}
    (h : o ∈ log.occurrences) : o.log? = none ∨ o.log? = some log := by
  simp only [occurrences, List.mem_append, List.mem_map] at h
  obtain (⟨_, -, rfl⟩ | ⟨_, -, rfl⟩) | ⟨_, -, rfl⟩ := h
  · exact Or.inl rfl
  · exact Or.inr rfl
  · exact Or.inr rfl

theorem LogInput.le_iff (a b : LogInput) :
    a.le b = true ↔ a.timestamp.instant < b.timestamp.instant ∨
      a.timestamp.instant = b.timestamp.instant ∧ a.id ≤ b.id := by
  simp [le]

theorem LogInput.le_trans {a b c : LogInput} (hab : a.le b = true) (hbc : b.le c = true) :
    a.le c = true := by
  rw [le_iff] at hab hbc ⊢
  obtain hab | ⟨hab, hid⟩ := hab <;> obtain hbc | ⟨hbc, hid'⟩ := hbc
  · exact Or.inl (Int.lt_trans hab hbc)
  · exact Or.inl (hbc ▸ hab)
  · exact Or.inl (hab ▸ hbc)
  · exact Or.inr ⟨hab.trans hbc, String.le_trans hid hid'⟩

theorem LogInput.le_total (a b : LogInput) : (a.le b || b.le a) = true := by
  rw [Bool.or_eq_true, le_iff, le_iff]
  obtain hab | hab | hab := Int.lt_trichotomy a.timestamp.instant b.timestamp.instant
  · exact Or.inl (Or.inl hab)
  · obtain hid | hid := String.le_total a.id b.id
    · exact Or.inl (Or.inr ⟨hab, hid⟩)
    · exact Or.inr (Or.inr ⟨hab.symm, hid⟩)
  · exact Or.inr (Or.inl hab)

/-- Logs in order are in order. -/
theorem pairwise_le_sorted (logs : List LogInput) :
    (LogInput.sorted logs).Pairwise fun a b => a.le b = true := by
  refine List.pairwise_mergeSort ?_ ?_ logs
  · intro a b c hab hbc
    exact LogInput.le_trans hab hbc
  · exact LogInput.le_total

/-- Logs in order are in the order of their times. -/
theorem pairwise_sorted (logs : List LogInput) :
    (LogInput.sorted logs).Pairwise fun a b => a.timestamp.instant ≤ b.timestamp.instant := by
  refine (pairwise_le_sorted logs).imp fun {a b} h => ?_
  rw [LogInput.le_iff] at h
  omega

/-- **Logs are taken in the order of their times.** -/
theorem isChronological_occurrences (settings : TraceSettings) (logs : List LogInput) :
    IsChronological (occurrences settings logs) := by
  rw [IsChronological, occurrences, List.filterMap_flatMap, List.pairwise_flatMap]
  have hlog {log last : LogInput} (h : last ∈ log.occurrences.filterMap Occurrence.log?) :
      last = log := by
    obtain ⟨o, ho, hlast⟩ := List.mem_filterMap.mp h
    obtain hnone | hsome := LogInput.log?_of_mem_occurrences ho
    · simp [hnone] at hlast
    · exact Option.some.inj (hlast.symm.trans hsome)
  refine ⟨fun log _ => List.pairwise_iff_getElem.mpr fun i j hi hj _ => ?_,
    (pairwise_sorted _).imp fun {a b} hab x hx y hy => ?_⟩
  · exact Int.le_of_eq (by rw [hlog (List.getElem_mem hi), hlog (List.getElem_mem hj)])
  · rw [hlog hx, hlog hy]
    exact hab

/-! ### Titles -/

/-- The header of a step, and its node. -/
structure StepTitle where
  header : StepHeader
  node : String

/-- Whether a title is that of a step that stands for an exception. -/
def StepTitle.IsFatal (x : StepTitle) : Prop := x.node = x.header.journeyId.shown ++ "-Error"

namespace TraceStep

/-- The header of a step, and the node it has once it is closed. -/
def title (s : TraceStep) : StepTitle := ⟨s.header, s.located.nodeId⟩

/-- Whether a step stands for an exception. -/
def IsFatal (s : TraceStep) : Prop := s.nodeId = s.journeyId.shown ++ "-Error"

theorem title_congr {s s' : TraceStep} (hheader : s'.header = s.header)
    (hnode : s'.nodeId = s.nodeId) : s'.title = s.title := by
  have hjourney : s'.journeyId = s.journeyId := congrArg StepHeader.journeyId hheader
  have horder : s'.order = s.order := congrArg StepHeader.order hheader
  have hlocated : s'.located.nodeId = s.located.nodeId := by
    simp only [located, placed, hnode, hjourney, horder]
    split
    · split
      · rfl
      · exact hnode
    · exact hnode
  rw [title, title, hheader, hlocated]

theorem nodeId_placed_placed (s : TraceStep) : s.placed.placed.nodeId = s.placed.nodeId := by
  unfold placed
  split <;> rfl

/-- A step keeps its title when it is closed. -/
@[simp] theorem title_located (s : TraceStep) : s.located.title = s.title := by
  have hnode : s.located.located.nodeId = s.located.nodeId := by
    by_cases h : s.nodeId.isEmpty
    · have hplaced : s.located = s.placed := if_pos h
      rw [hplaced, located]
      split
      · exact nodeId_placed_placed s
      · rfl
    · have hself : s.located = s := if_neg h
      rw [hself, hself]
  rw [title, title, header_located, hnode]

theorem title_snapshot (t : Rebuilding) (s : TraceStep) : (t.snapshot s).title = s.title :=
  title_congr rfl rfl

theorem title_absorb (s again : TraceStep) : (s.absorb again).title = s.title :=
  title_congr rfl rfl

theorem error_ne_empty (name : String) : name ++ "-Error" ≠ "" := by
  intro h
  simpa using congrArg String.length h

/-- A step with the node of its number does not stand for an exception. -/
theorem not_isFatal_title_placed {s : TraceStep} (h : s.nodeId = "") :
    ¬ s.placed.title.IsFatal := by
  have hlocated : s.placed.located.nodeId = s.placed.nodeId := by
    unfold located
    split
    · exact nodeId_placed_placed s
    · rfl
  rw [StepTitle.IsFatal, title, hlocated]
  show ¬ s.placed.nodeId = s.placed.header.journeyId.shown ++ "-Error"
  rw [header_placed]
  unfold placed
  split
  · intro hnode
    have := congrArg String.toList hnode
    simp [nodeOf, header] at this
  · rw [h]
    exact (error_ne_empty _).symm

@[simp] theorem isFatal_title_iff (s : TraceStep) : s.title.IsFatal ↔ s.IsFatal := by
  by_cases hnode : s.nodeId = ""
  · have hplaced : s.located = s.placed := if_pos (by simp [hnode])
    refine iff_of_false ?_ ?_
    · rw [← title_located, hplaced]
      exact not_isFatal_title_placed hnode
    · rw [IsFatal, hnode]
      exact (error_ne_empty _).symm
  · have hself : s.located = s := if_neg (by simpa using hnode)
    rw [title, StepTitle.IsFatal, hself]
    rfl

theorem not_isFatal_title_of_placed {s s' : TraceStep} (h : s.nodeId = "")
    (hheader : s'.header = s.placed.header) (hnode : s'.nodeId = s.placed.nodeId) :
    ¬ s'.title.IsFatal := by
  rw [title_congr hheader hnode]
  exact not_isFatal_title_placed h

end TraceStep

/-! ### Facts and outcomes leave the title as it is -/

@[simp] theorem Findings.title_applyTo (f : Findings) (claims : Fields String) (s : TraceStep) :
    (f.applyTo claims s).title = s.title :=
  TraceStep.title_congr (f.header_applyTo claims s) (f.nodeId_applyTo claims s)

namespace Rebuilding

@[simp] theorem title_outcome (f : Findings) (s : TraceStep) : (outcome f s).title = s.title :=
  TraceStep.title_congr (header_outcome f s) (nodeId_outcome f s)

@[simp] theorem title_outcomeOfOpen (f : Findings) (s : TraceStep) :
    (outcomeOfOpen f s).title = s.title :=
  TraceStep.title_congr (header_outcomeOfOpen f s) (nodeId_outcomeOfOpen f s)

@[simp] theorem title_noteTransition (eventName : String) (s : TraceStep) :
    (noteTransition eventName s).title = s.title :=
  TraceStep.title_congr (header_noteTransition eventName s) (nodeId_noteTransition eventName s)

@[simp] theorem title_concluded (f : Findings) (s : TraceStep) :
    (concluded f s).title = s.title :=
  TraceStep.title_congr (header_concluded f s) (nodeId_concluded f s)

/-! ### Opening steps -/

/-- The title of the step that is open, if there is one. -/
def pending (t : Rebuilding) : List StepTitle := (t.current.map TraceStep.title).toList

/-- The titles of what is filed. -/
def titles (filings : List Filing) : List StepTitle := filings.map fun x => x.step.title

@[simp] theorem titles_nil : titles [] = [] := rfl

@[simp] theorem titles_append (xs ys : List Filing) : titles (xs ++ ys) = titles xs ++ titles ys :=
  List.map_append

/-- A step that is closed is filed under the title it was open under. -/
@[simp] theorem titles_closing (t : Rebuilding) : titles t.closing = t.pending := by
  unfold closing pending titles
  cases t.current with
  | none => rfl
  | some s => simp [Filing.step, TraceStep.title_snapshot]

@[simp] theorem pending_close (t : Rebuilding) : t.close.pending = [] := by
  obtain ⟨_, _, h⟩ := exists_close_eq t
  rw [h]
  rfl

@[simp] theorem pending_concludeOpen (t : Rebuilding) (f : Findings) :
    (t.concludeOpen f).pending = t.pending := by
  unfold concludeOpen pending
  cases t.current <;> simp

/-- A title for a step that a log opens. -/
structure IsNext (t : Rebuilding) (log : LogInput) (x : StepTitle) : Prop where
  sequence : x.header.sequence = t.sequence
  logId : x.header.logId = log.id
  timestamp : x.header.timestamp = log.timestamp

/-- A step opened for a group has the next number, and is none for an exception. -/
theorem title_openStep (t : Rebuilding) (f : Findings) (log : LogInput) (eventType : String) :
    ∃ s, (t.openStep f log eventType).current = some s ∧ t.IsNext log s.title ∧
      ¬ s.title.IsFatal := by
  obtain ⟨s, hcurrent, hheader, -⟩ := openStep_spec t f log eventType
  refine ⟨s, hcurrent, ⟨congrArg StepHeader.sequence hheader, congrArg StepHeader.logId hheader,
    congrArg StepHeader.timestamp hheader⟩, ?_⟩
  obtain rfl := Option.some.inj hcurrent
  rw [title_outcome]
  split <;> exact TraceStep.not_isFatal_title_of_placed rfl rfl rfl

/-- Findings open one step at most, and file what was open before. -/
theorem exists_opened_advance (t : Rebuilding) (f : Findings) (log : LogInput)
    (eventType : String) :
    ∃ opened : Option StepTitle,
      titles (if f.createStep then t.closing else []) ++ (t.advance f log eventType).pending =
          t.pending ++ opened.toList ∧
        (t.advance f log eventType).sequence = t.sequence + opened.toList.length ∧
          ∀ x ∈ opened, t.IsNext log x ∧ ¬ x.IsFatal := by
  unfold advance
  cases f.createStep with
  | false =>
    refine ⟨none, ?_, rfl, by simp⟩
    cases hcurrent : t.current <;> simp [pending, titles, takeUpdates, hcurrent]
  | true =>
    obtain ⟨s, hcurrent, hnext, hordinary⟩ := title_openStep t f log eventType
    refine ⟨some s.title, ?_, ?_, ?_⟩
    · simp [pending, hcurrent]
    · exact (openStep_spec t f log eventType).choose_spec.2.2
    · simp [hnext, hordinary]

theorem exists_opened_apply (t : Rebuilding) (f : Findings) (log : LogInput)
    (eventType : String) :
    ∃ opened : Option StepTitle,
      titles (t.filedBy f log eventType) ++ (t.apply f log eventType).pending =
          t.pending ++ opened.toList ∧
        (t.apply f log eventType).sequence = t.sequence + opened.toList.length ∧
          ∀ x ∈ opened, t.IsNext log x ∧ ¬ x.IsFatal := by
  unfold filedBy
  cases hsuccess : f.success with
  | false =>
    obtain ⟨errors, happly⟩ := exists_apply_of_not_success t log eventType hsuccess
    rw [happly]
    exact ⟨none, by simp [pending], rfl, by simp⟩
  | true =>
    obtain ⟨opened, htitles, hsequence, hopened⟩ := exists_opened_advance t f log eventType
    rw [apply_of_success hsuccess, if_pos rfl, titles_append]
    refine ⟨opened, ?_, ?_, hopened⟩
    · rw [← htitles]
      cases f.finalizeStep <;> simp
    · rw [← hsequence]
      cases f.finalizeStep with
      | false => rfl
      | true => exact sequence_close _

/-- **An occurrence opens one step at most**, and files what was open before.  Only the exception
that ended a log opens a step that stands for one. -/
theorem exists_opened (t : Rebuilding) (o : Occurrence) :
    ∃ opened : Option StepTitle,
      titles (t.filed o) ++ (t.undergo o).pending = t.pending ++ opened.toList ∧
        (t.undergo o).sequence = t.sequence + opened.toList.length ∧
          ∀ x ∈ opened, ∃ log, o.log? = some log ∧ t.IsNext log x ∧
            (x.IsFatal → ∃ message, o = .fatal log message) := by
  cases o with
  | malformed line => exact ⟨none, by simp [filed, pending, undergo, report], rfl, by simp⟩
  | fatal log message =>
    have hpending : (t.failOpen message).pending = t.pending := by
      unfold failOpen pending
      cases t.current with
      | none => rfl
      | some s => exact congrArg (fun x => [x]) (TraceStep.title_congr rfl rfl)
    have hsequence : (t.failOpen message).close.sequence = t.sequence := sequence_close _
    let s := (t.failOpen message).close.fatalStep message log
    refine ⟨some s.title, ?_, congrArg (· + 1) hsequence, ?_⟩
    · have hclosed : (t.undergo (.fatal log message)).pending = [] :=
        pending_close (t.failOpen message)
      rw [hclosed, filed, titles_append, titles_closing, hpending, List.append_nil]
      rfl
    · rintro x ⟨⟩
      exact ⟨log, rfl, ⟨congrArg Int.ofNat hsequence, rfl, rfl⟩, fun _ => ⟨message, rfl⟩⟩
  | event log e =>
    cases e with
    | change c =>
      refine ⟨none, ?_, rfl, by simp⟩
      cases hcurrent : t.current <;>
        simp [filed, pending, undergo, takeEvent, takeTransition, hcurrent]
    | group g =>
      rw [undergo_group, filed]
      obtain ⟨f, registry, journeys, htake, hfiled⟩ | ⟨⟨registry, errors, htake⟩, hfiled⟩ :=
        filedByGroup_cases t log g
      · rw [htake, hfiled]
        obtain ⟨opened, htitles, hsequence, hopened⟩ :=
          exists_opened_apply { t with registry, journeys } f log log.type
        refine ⟨opened, htitles, hsequence, fun x hx => ?_⟩
        obtain ⟨hnext, hordinary⟩ := hopened x hx
        exact ⟨log, rfl, ⟨hnext.sequence, hnext.logId, hnext.timestamp⟩,
          fun hfatal => absurd hfatal hordinary⟩
      · rw [htake, hfiled]
        exact ⟨none, by simp [pending], rfl, by simp⟩

/-! ### Steps in the course of a run -/

/-- Titles of steps that were opened one after the other. -/
structure IsSuccession (past : List Occurrence) (sequence : Nat) (xs : List StepTitle) :
    Prop where
  ordered : xs.Pairwise fun a b =>
    a.header.sequence < b.header.sequence ∧
      a.header.timestamp.instant ≤ b.header.timestamp.instant
  below : ∀ x ∈ xs, x.header.sequence < sequence
  /-- Every step is one of a log, and one for an exception is one of a log that it ended. -/
  log : ∀ x ∈ xs, ∃ o ∈ past, ∃ log, o.log? = some log ∧ x.header.logId = log.id ∧
    x.header.timestamp = log.timestamp ∧ (x.IsFatal → ∃ message, o = .fatal log message)

/-- **Step.**  A step that is opened follows those before it. -/
theorem IsSuccession.undergo {past : List Occurrence} {t : Rebuilding} {filings : List Filing}
    (h : IsSuccession past t.sequence (titles filings ++ t.pending)) {o : Occurrence}
    (hlast : ∀ log ∈ past.filterMap Occurrence.log?, ∀ last, o.log? = some last →
      log.timestamp.instant ≤ last.timestamp.instant) :
    IsSuccession (past ++ [o]) (t.undergo o).sequence
      (titles (filings ++ t.filed o) ++ (t.undergo o).pending) := by
  obtain ⟨opened, htitles, hsequence, hopened⟩ := exists_opened t o
  rw [titles_append, List.append_assoc, htitles, ← List.append_assoc, hsequence]
  generalize titles filings ++ t.pending = xs at h
  refine ⟨?_, ?_, ?_⟩
  · refine List.pairwise_append.mpr ⟨h.ordered, by cases opened <;> simp, ?_⟩
    intro a ha x hx
    obtain ⟨last, hlog, hnext, -⟩ := hopened x (by simpa using hx)
    obtain ⟨p, hp, log, hplog, -, htime, -⟩ := h.log a ha
    refine ⟨?_, ?_⟩
    · rw [hnext.sequence]
      exact h.below a ha
    · rw [htime, hnext.timestamp]
      exact hlast log (List.mem_filterMap.mpr ⟨p, hp, hplog⟩) last hlog
  · intro x hx
    rcases List.mem_append.mp hx with hx | hx
    · have := h.below x hx
      omega
    · obtain ⟨log, -, hnext, -⟩ := hopened x (by simpa using hx)
      have hlength := List.length_pos_of_mem hx
      rw [hnext.sequence]
      omega
  · intro x hx
    rcases List.mem_append.mp hx with hx | hx
    · obtain ⟨p, hp, hlog⟩ := h.log x hx
      exact ⟨p, List.mem_append_left _ hp, hlog⟩
    · obtain ⟨log, hlog, hnext, hfatal⟩ := hopened x (by simpa using hx)
      exact ⟨o, by simp, log, hlog, hnext.logId, hnext.timestamp, hfatal⟩

variable {registry : Registry} {settings : TraceSettings} {logs : List LogInput}

/-- **Run.**  Steps are filed in the order of their numbers and times. -/
theorem isSuccession_behind {past : List Occurrence} (hpast : IsChronological past) :
    IsSuccession past (behind registry settings logs past).sequence
      (titles ((behind registry settings logs []).filings past) ++
        (behind registry settings logs past).pending) := by
  revert hpast
  refine behind_induction (motive := fun past t => IsChronological past → IsSuccession past
    t.sequence (titles ((behind registry settings logs []).filings past) ++ t.pending)) ?_ ?_ past
  · intro _
    exact ⟨List.Pairwise.nil, fun _ hx => absurd hx List.not_mem_nil,
      fun _ hx => absurd hx List.not_mem_nil⟩
  · intro past o ih hpast
    obtain ⟨hpast, hlast⟩ := isChronological_append_singleton hpast
    rw [filings_append_singleton]
    exact (ih hpast).undergo hlast

end Rebuilding
end TrustFramework
