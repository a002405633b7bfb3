import TrustFramework.Proofs.Trace.Orchestration
import TrustFramework.Proofs.Trace.Succession

/-!
# Steps that are told apart

A step with the journey and the number of an earlier one is a repetition of it within the dedup
window, and is folded into it.  A table keeps, for each journey and number, the last step that
was no repetition, and when it was; since steps are filed in the order of their times, that is
enough to keep all steps of a journey and a number apart.

A step for an exception is put among the steps whatever was there before, and is not in the
table.

## Main definitions

* `StepTitle.key`, `StepTitle.IsApart` — what tells steps apart, and when they are far enough.
* `Rebuilding.IsTable` — the table is about the steps, and these are apart.
* `LogInput.IsRecorded` — a log whose clips were read.

## Main results

* `Rebuilding.settle_cases` — a closed step is dropped, folded into another, or a new one.
* `Rebuilding.IsTable.file` — **filing keeps steps apart**, in the order of their times.
* `steps_rebuildWith` — **the steps of a trace.**
-/

namespace TrustFramework

/-! ### Settling a step -/

namespace Rebuilding

/-- A closed step is dropped, folded into the step it repeats, or put at the end. -/
theorem settle_cases (t : Rebuilding) (s : TraceStep) :
    (isKept s = false ∧ t.settle s = t) ∨
    (∃ place time, isKept s = true ∧ t.seen.get? (stepKey s) = some (place, time) ∧
      isWithin t.window time s.timestamp = true ∧
      t.settle s = { t with steps := t.steps.modify place fun first => first.absorb s }) ∨
    (isKept s = true ∧
      (∀ place time, t.seen.get? (stepKey s) = some (place, time) →
        isWithin t.window time s.timestamp = false) ∧
      t.settle s = { t with
        steps := t.steps ++ [s]
        seen := t.seen.set (stepKey s) (t.steps.length, s.timestamp) }) := by
  unfold settle
  cases hkept : isKept s with
  | false => exact Or.inl ⟨rfl, rfl⟩
  | true =>
    rw [if_pos rfl]
    refine Or.inr ?_
    cases hseen : t.seen.get? (stepKey s) with
    | none => exact Or.inr ⟨rfl, by simp, rfl⟩
    | some last =>
      obtain ⟨place, time⟩ := last
      cases hwithin : isWithin t.window time s.timestamp with
      | true =>
        refine Or.inl ⟨place, time, rfl, rfl, hwithin, ?_⟩
        rw [Option.filter_some, if_pos hwithin]
      | false =>
        refine Or.inr ⟨rfl, ?_, ?_⟩
        · rintro _ _ ⟨⟩
          exact hwithin
        · rw [Option.filter_some, if_neg (by simp [hwithin])]

/-- A step that is folded into an earlier one leaves the titles as they are. -/
theorem titles_modify_absorb (steps : List TraceStep) (place : Nat) (s : TraceStep) :
    (steps.modify place fun first => first.absorb s).map TraceStep.title =
      steps.map TraceStep.title := by
  have htitle (first : TraceStep) : (first.absorb s).title = id first.title :=
    TraceStep.title_absorb first s
  rw [map_modify htitle, List.modify_id]

/-! ### What is kept -/

theorem StepResult.merge_error (r : StepResult) : StepResult.merge .error r = .error := by
  cases r <;> rfl

/-- A step is kept if it has a number, or if it failed with a message. -/
theorem isKept_iff (s : TraceStep) :
    isKept s = true ↔ 0 < s.order ∨
      s.result = .error ∧ ∃ message, s.errorMessage = some message ∧ message ≠ "" := by
  unfold isKept
  cases s.errorMessage <;> simp

/-- A step that is kept is kept whatever is folded into it. -/
theorem isKept_absorb {s : TraceStep} (h : isKept s = true) (again : TraceStep) :
    isKept (s.absorb again) = true := by
  rw [isKept_iff] at h ⊢
  obtain horder | ⟨hresult, message, hmessage, hne⟩ := h
  · exact Or.inl horder
  · refine Or.inr ⟨?_, message, ?_, hne⟩
    · show StepResult.merge s.result again.result = .error
      rw [hresult, StepResult.merge_error]
    · simp [TraceStep.absorb, hmessage, hne]

/-- Filing keeps nothing but steps with a number or a message. -/
theorem isKept_of_mem_file {t : Rebuilding} (h : ∀ s ∈ t.steps, isKept s = true) {x : Filing}
    (hfatal : ∀ s, x = .fatal s → isKept s = true) : ∀ s ∈ (t.file x).steps, isKept s = true := by
  cases x with
  | fatal s =>
    intro s' hs'
    rcases List.mem_append.mp hs' with hs' | hs'
    · exact h s' hs'
    · rw [List.mem_singleton.mp hs']
      exact hfatal s rfl
  | closed s =>
    show ∀ s' ∈ (t.settle s).steps, isKept s' = true
    obtain ⟨-, hsettle⟩ | ⟨place, time, -, -, -, hsettle⟩ | ⟨hkept, -, hsettle⟩ :=
      settle_cases t s
    · rw [hsettle]
      exact h
    · rw [hsettle]
      intro s' hs'
      obtain ⟨i, hi, rfl⟩ := List.getElem_of_mem hs'
      rw [List.getElem_modify]
      split
      · exact isKept_absorb (h _ (List.getElem_mem _)) s
      · exact h _ (List.getElem_mem _)
    · rw [hsettle]
      intro s' hs'
      rcases List.mem_append.mp hs' with hs' | hs'
      · exact h s' hs'
      · rw [List.mem_singleton.mp hs']
        exact hkept

end Rebuilding

/-! ### The table of steps -/

namespace StepTitle

/-- What tells a step from others: its journey and its number. -/
def key (x : StepTitle) : String :=
  x.header.journeyId.shown ++ "-" ++ toString x.header.order

/-- One step is no repetition of another before it: it is for an exception, or the other is, or
it is of another journey or number, or later by more than the window. -/
def IsApart (window : Milliseconds) (earlier later : StepTitle) : Prop :=
  ¬ earlier.IsFatal → ¬ later.IsFatal → earlier.key = later.key →
    window.count * 1000 < later.header.timestamp.instant - earlier.header.timestamp.instant

/-- Steps of the same journey and number have the same key. -/
theorem key_eq_of_eq {a b : TraceStep} (hjourney : a.journeyId.shown = b.journeyId.shown)
    (horder : a.order = b.order) : a.title.key = b.title.key := by
  show a.journeyId.shown ++ "-" ++ toString a.order = b.journeyId.shown ++ "-" ++ toString b.order
  rw [hjourney, horder]

end StepTitle

/-- A table is about the steps with some titles, and these are apart. -/
structure IsTable (window : Milliseconds) (seen : Fields (Nat × Timestamp))
    (titles : List StepTitle) : Prop where
  /-- What the table says of a step is so. -/
  places : ∀ key place time, seen.get? key = some (place, time) →
    ∃ x, titles[place]? = some x ∧ x.key = key ∧ x.header.timestamp = time
  /-- Each step has an entry that is not earlier. -/
  noted : ∀ x ∈ titles, ¬ x.IsFatal → ∃ place time,
    seen.get? x.key = some (place, time) ∧ x.header.timestamp.instant ≤ time.instant
  apart : titles.Pairwise (StepTitle.IsApart window)

namespace IsTable

variable {window : Milliseconds} {seen : Fields (Nat × Timestamp)} {titles : List StepTitle}

theorem empty (window : Milliseconds) : IsTable window [] [] :=
  ⟨fun _ _ _ h => (by simp at h), fun _ h => absurd h List.not_mem_nil, List.Pairwise.nil⟩

theorem getElem?_append_of_places (h : IsTable window seen titles) (x : StepTitle) {key : String}
    {place : Nat} {time : Timestamp} (hseen : seen.get? key = some (place, time)) :
    ∃ y, (titles ++ [x])[place]? = some y ∧ y.key = key ∧ y.header.timestamp = time := by
  obtain ⟨y, hy, hkey⟩ := h.places key place time hseen
  refine ⟨y, ?_, hkey⟩
  rw [List.getElem?_append_left (List.getElem?_eq_some_iff.mp hy).1]
  exact hy

/-- A step for an exception is put among the others. -/
theorem append_fatal (h : IsTable window seen titles) {x : StepTitle} (hfatal : x.IsFatal) :
    IsTable window seen (titles ++ [x]) := by
  refine ⟨fun key place time hseen => h.getElem?_append_of_places x hseen, ?_, ?_⟩
  · intro y hy hordinary
    rcases List.mem_append.mp hy with hy | hy
    · exact h.noted y hy hordinary
    · rw [List.mem_singleton.mp hy] at hordinary
      exact absurd hfatal hordinary
  · refine List.pairwise_append.mpr ⟨h.apart, List.pairwise_singleton _ _, ?_⟩
    intro a _ b hb _ hordinary
    rw [List.mem_singleton.mp hb] at hordinary
    exact absurd hfatal hordinary

/-- A step that is later than all others, and no repetition, is put among them. -/
theorem append_new (h : IsTable window seen titles) {x : StepTitle}
    (hlate : ∀ y ∈ titles, y.header.timestamp.instant ≤ x.header.timestamp.instant)
    (hnew : ∀ place time, seen.get? x.key = some (place, time) →
      Rebuilding.isWithin window time x.header.timestamp = false) :
    IsTable window (seen.set x.key (titles.length, x.header.timestamp)) (titles ++ [x]) := by
  refine ⟨?_, ?_, ?_⟩
  · intro key place time hseen
    by_cases hkey : key = x.key
    · subst hkey
      rw [Fields.get?_set_self] at hseen
      obtain ⟨rfl, rfl⟩ := Prod.mk.inj (Option.some.inj hseen)
      exact ⟨x, List.getElem?_concat_length, rfl, rfl⟩
    · rw [Fields.get?_set_of_ne _ _ hkey] at hseen
      exact h.getElem?_append_of_places x hseen
  · intro y hy hordinary
    by_cases hkey : y.key = x.key
    · refine ⟨titles.length, x.header.timestamp, by rw [hkey, Fields.get?_set_self], ?_⟩
      rcases List.mem_append.mp hy with hy | hy
      · exact hlate y hy
      · exact List.mem_singleton.mp hy ▸ Int.le_refl _
    · rw [Fields.get?_set_of_ne _ _ hkey]
      rcases List.mem_append.mp hy with hy | hy
      · exact h.noted y hy hordinary
      · exact absurd (congrArg StepTitle.key (List.mem_singleton.mp hy)) hkey
  · refine List.pairwise_append.mpr ⟨h.apart, List.pairwise_singleton _ _, ?_⟩
    intro a ha b hb hordinary _ hkey
    obtain rfl := List.mem_singleton.mp hb
    -- the entry of the earlier step is no repetition, and the step no later than its entry
    obtain ⟨place, time, hseen, hle⟩ := h.noted a ha hordinary
    have hwithin := hnew place time (hkey ▸ hseen)
    simp only [Rebuilding.isWithin, decide_eq_false_iff_not, Int.not_le] at hwithin
    omega

end IsTable

namespace Rebuilding

/-- The titles of the steps of a trace in the making. -/
def stepTitles (t : Rebuilding) : List StepTitle := t.steps.map TraceStep.title

/-- **Step.**  Filing keeps steps apart, if they are filed in the order of their times. -/
theorem isTable_file {t : Rebuilding} (h : IsTable t.window t.seen t.stepTitles) {x : Filing}
    (hlate : ∀ y ∈ t.stepTitles, y.header.timestamp.instant ≤ x.step.timestamp.instant)
    (hfatal : ∀ s, x = .fatal s → s.IsFatal) :
    IsTable (t.file x).window (t.file x).seen (t.file x).stepTitles := by
  cases x with
  | fatal s =>
    have happend := h.append_fatal ((TraceStep.isFatal_title_iff s).mpr (hfatal s rfl))
    simpa [file, stepTitles] using happend
  | closed s =>
    show IsTable (t.settle s).window (t.settle s).seen (t.settle s).stepTitles
    obtain ⟨-, hsettle⟩ | ⟨place, time, -, -, -, hsettle⟩ | ⟨-, hnew, hsettle⟩ :=
      settle_cases t s
    · rw [hsettle]
      exact h
    · -- nothing that the table is about changes
      rw [hsettle, stepTitles, titles_modify_absorb]
      exact h
    · have happend := h.append_new (x := s.title) hlate hnew
      rw [stepTitles, List.length_map] at happend
      rw [hsettle, stepTitles, List.map_append]
      exact happend

/-- Filing puts no title among the steps but that of what is filed. -/
theorem sublist_stepTitles_file (t : Rebuilding) (x : Filing) :
    (t.file x).stepTitles.Sublist (t.stepTitles ++ [x.step.title]) := by
  cases x with
  | fatal s =>
    simp [file, stepTitles, Filing.step]
  | closed s =>
    show (t.settle s).stepTitles.Sublist (t.stepTitles ++ [s.title])
    obtain ⟨-, hsettle⟩ | ⟨place, time, -, -, -, hsettle⟩ | ⟨-, hnew, hsettle⟩ :=
      settle_cases t s
    · rw [hsettle]
      exact List.sublist_append_left _ _
    · rw [hsettle, stepTitles, titles_modify_absorb]
      exact List.sublist_append_left _ _
    · rw [hsettle]
      simp [stepTitles]

@[simp] theorem window_file (t : Rebuilding) (x : Filing) : (t.file x).window = t.window := by
  cases x with
  | fatal s => rfl
  | closed s =>
    obtain ⟨_, _, hsettle⟩ := exists_settle_eq t s
    show (t.settle s).window = t.window
    rw [hsettle]

/-! ### Filings one after the other -/

@[simp] theorem window_foldl_file (t : Rebuilding) (filings : List Filing) :
    (filings.foldl file t).window = t.window := by
  induction filings using List.reverseRecOn with
  | nil => rfl
  | append_singleton filings x ih => simp [ih]

section

variable {t : Rebuilding} (hsteps : t.steps = []) (filings : List Filing)

include hsteps

theorem sublist_stepTitles : (filings.foldl file t).stepTitles.Sublist (titles filings) := by
  induction filings using List.reverseRecOn with
  | nil => simp [stepTitles, hsteps]
  | append_singleton filings x ih =>
    rw [List.foldl_append, titles_append]
    exact (sublist_stepTitles_file _ x).trans (ih.append_right _)

/-- Nothing but steps with a number or a message are among those of a trace. -/
theorem isKept_of_mem_steps (hfatal : ∀ s, .fatal s ∈ filings → isKept s = true) :
    ∀ s ∈ (filings.foldl file t).steps, isKept s = true := by
  induction filings using List.reverseRecOn with
  | nil => simp [hsteps]
  | append_singleton filings x ih =>
    rw [List.foldl_append]
    refine isKept_of_mem_file (ih fun s hs => hfatal s (List.mem_append_left _ hs)) ?_
    rintro s rfl
    exact hfatal s (by simp)

/-- **Run.**  Steps that are filed in the order of their times are apart. -/
theorem isTable_foldl_file (hseen : t.seen = [])
    (hordered : (titles filings).Pairwise fun a b =>
      a.header.timestamp.instant ≤ b.header.timestamp.instant)
    (hfatal : ∀ s, .fatal s ∈ filings → s.IsFatal) :
    IsTable t.window (filings.foldl file t).seen (filings.foldl file t).stepTitles := by
  induction filings using List.reverseRecOn with
  | nil =>
    rw [List.foldl_nil, stepTitles, hsteps, hseen]
    exact IsTable.empty _
  | append_singleton filings x ih =>
    rw [titles_append, List.pairwise_append] at hordered
    have htable := ih hordered.1 fun s hs => hfatal s (List.mem_append_left _ hs)
    rw [← window_foldl_file t filings] at htable
    rw [List.foldl_append, ← window_foldl_file t filings, ← window_file _ x]
    refine isTable_file htable (fun y hy => ?_) ?_
    · exact hordered.2.2 y ((sublist_stepTitles hsteps filings).mem hy) _ List.mem_cons_self
    · rintro s rfl
      exact hfatal s (by simp)

end

/-! ### Steps for exceptions -/

theorem fatal_not_mem_closing (t : Rebuilding) (s : TraceStep) : .fatal s ∉ t.closing := by
  unfold closing
  cases t.current <;> simp

/-- Only an exception that ended a log files a step of its own. -/
theorem exists_fatalStep_of_mem_filed {t : Rebuilding} {o : Occurrence} {s : TraceStep}
    (h : .fatal s ∈ t.filed o) :
    ∃ (u : Rebuilding) (log : LogInput) (message : String),
      o = .fatal log message ∧ s = u.fatalStep message log := by
  cases o with
  | malformed line => simp [filed] at h
  | fatal log message =>
    rcases List.mem_append.mp h with h | h
    · exact absurd h (fatal_not_mem_closing _ s)
    · obtain ⟨rfl⟩ := List.mem_singleton.mp h
      exact ⟨_, log, message, rfl, rfl⟩
  | event log e =>
    cases e with
    | change c => simp [filed] at h
    | group g =>
      rw [filed] at h
      obtain ⟨f, registry, journeys, -, hfiled⟩ | ⟨-, hfiled⟩ := filedByGroup_cases t log g
      · rw [hfiled, filedBy] at h
        split at h
        · rcases List.mem_append.mp h with h | h <;> split at h
          · exact absurd h (fatal_not_mem_closing _ s)
          · simp at h
          · exact absurd h (fatal_not_mem_closing _ s)
          · simp at h
        · simp at h
      · simp [hfiled] at h

/-- Such a step stands for an exception, and has its message. -/
theorem eq_fatal_of_mem_filed {t : Rebuilding} {o : Occurrence} {s : TraceStep}
    (h : .fatal s ∈ t.filed o) : s.IsFatal ∧ s.result = .error ∧
      ∃ log message, o = .fatal log message ∧ s.errorMessage = some message := by
  obtain ⟨u, log, message, rfl, rfl⟩ := exists_fatalStep_of_mem_filed h
  exact ⟨rfl, rfl, log, message, rfl, rfl⟩

end Rebuilding

/-! ### Messages -/

/-- A log whose clips were read. -/
def LogInput.IsRecorded (log : LogInput) : Prop := ∃ content, log.clips = Clip.readAll content

theorem unknownError_ne_empty : unknownError ≠ "" := by decide

/-- An exception that is read has a message. -/
theorem RecordedException.message_read_ne_empty (v : Value) : (read v).message ≠ "" := by
  unfold read
  split
  · show (if _ then _ else _ : String) ≠ ""
    split
    · exact unknownError_ne_empty
    · next h => simpa using h
  · exact unknownError_ne_empty

theorem Clip.message_ne_empty_of_read? {v : Value} {e : RecordedException} {time : Option String}
    (h : read? v = some (.fatal e time)) : e.message ≠ "" := by
  have hobject {kind : String} {content : Value} {clip : Clip}
      (hclip : ∀ e time, clip ≠ .fatal e time) : ofObject kind content clip ≠ .fatal e time := by
    unfold ofObject
    split
    · exact hclip e time
    · simp
  unfold read? at h
  split at h
  · have hcontent := Option.some.inj h
    unfold ofContent at hcontent
    split at hcontent
    case h_6 | h_7 =>
      obtain ⟨rfl, -⟩ := Clip.fatal.inj hcontent
      exact RecordedException.message_read_ne_empty _
    all_goals first
      | exact absurd hcontent (hobject (by simp))
      | simp at hcontent
  · simp at h

/-- The exception that ended a log that was read has a message. -/
theorem LogInput.IsRecorded.message_ne_empty {log : LogInput} (h : log.IsRecorded)
    {e : RecordedException} {time : Option String} (hfatal : fatalOf? log.clips = some (e, time)) :
    e.message ≠ "" := by
  obtain ⟨content, hclips⟩ := h
  obtain ⟨clip, hclip, hread⟩ := List.exists_of_findSome?_eq_some hfatal
  rw [List.mem_reverse, hclips, Clip.readAll] at hclip
  obtain ⟨v, -, hv⟩ := List.mem_filterMap.mp hclip
  split at hread
  · obtain ⟨rfl, rfl⟩ := hread
    exact Clip.message_ne_empty_of_read? hv
  · simp at hread

/-- An exception in a run is that of one of the logs. -/
theorem exists_of_fatal_mem_occurrences {settings : TraceSettings} {logs : List LogInput}
    {log : LogInput} {message : String} (h : .fatal log message ∈ occurrences settings logs) :
    log ∈ logs ∧ ∃ e time, fatalOf? log.clips = some (e, time) ∧ e.message = message := by
  obtain ⟨last, hlast, hmem⟩ := List.mem_flatMap.mp h
  simp only [LogInput.occurrences, List.mem_append, List.mem_map, Option.mem_toList] at hmem
  obtain (⟨_, -, hmem⟩ | ⟨_, -, hmem⟩) | ⟨⟨e, time⟩, hfatal, hmem⟩ := hmem
  · cases hmem
  · cases hmem
  · obtain ⟨rfl, rfl⟩ := Occurrence.fatal.inj hmem
    exact ⟨(List.mem_filter.mp (List.mem_mergeSort.mp hlast)).1, e, time, hfatal, rfl⟩

/-! ### Passes -/

/-- All of a step that no pass over the steps changes. -/
def TraceStep.outline (s : TraceStep) : StepTitle × StepResult × Option String :=
  (s.title, s.result, s.errorMessage)

theorem TraceStep.outline_eq_iff {s s' : TraceStep} : s.outline = s'.outline ↔
    s.title = s'.title ∧ s.result = s'.result ∧ s.errorMessage = s'.errorMessage := by
  simp [outline]

theorem TraceStep.outline_congr {s s' : TraceStep} (hheader : s'.header = s.header)
    (hnode : s'.nodeId = s.nodeId) (hresult : s'.result = s.result)
    (hmessage : s'.errorMessage = s.errorMessage) : s'.outline = s.outline := by
  rw [outline, outline, title_congr hheader hnode, hresult, hmessage]

section

variable {α : Type} {f : TraceStep → α}
  (hduration : ∀ s duration, f { s with duration } = f s)
  (hselected : ∀ s selected, f { s with selected } = f s)

include hduration in
theorem map_withDurations (steps : List TraceStep) :
    (withDurations steps).map f = steps.map f := by
  fun_induction withDurations steps with
  | case1 => rfl
  | case2 s => simp [hduration]
  | case3 s t rest ih => rw [List.map_cons, ih, hduration]; rfl

include hselected in
theorem map_withSelections (steps : List TraceStep) :
    (withSelections steps).map f = steps.map f := by
  have hselection (s : TraceStep) (next : Option TraceStep) : f (withSelection s next) = f s := by
    unfold withSelection
    split
    · rfl
    · split
      · exact hselected s _
      · rfl
  induction steps with
  | nil => rfl
  | cons s rest ih => simp [withSelections, hselection, ih]

include hduration hselected in
/-- The passes over the steps change nothing but durations and selections. -/
theorem map_passes (passes : List Pass) (steps : List TraceStep) :
    (passes.foldl (fun steps p => p.run steps) steps).map f = steps.map f := by
  induction passes generalizing steps with
  | nil => rfl
  | cons p passes ih =>
    rw [List.foldl_cons, ih]
    cases p with
    | durations => exact map_withDurations hduration steps
    | selections => exact map_withSelections hselected steps

include hduration hselected in
/-- The steps of a trace are those of its run, but for durations and selections. -/
theorem map_steps_rebuildWith (registry : Registry) (passes : List Pass)
    (settings : TraceSettings) (logs : List LogInput) :
    (rebuildWith registry passes settings logs).2.steps.map f =
      (Rebuilding.behind registry settings logs (occurrences settings logs)).close.steps.map f := by
  by_cases hlogs : supportedLogs settings logs = []
  · simp only [rebuildWith, hlogs, occurrences, List.flatMap_nil]
    rfl
  · rw [rebuildWith_eq hlogs]
    exact map_passes hduration hselected passes _

end

/-- The steps of a trace are those of its run, but for what no pass changes. -/
theorem outline_steps_rebuildWith (registry : Registry) (passes : List Pass)
    (settings : TraceSettings) (logs : List LogInput) :
    (rebuildWith registry passes settings logs).2.steps.map TraceStep.outline =
      (Rebuilding.behind registry settings logs (occurrences settings logs)).close.steps.map
        TraceStep.outline :=
  map_steps_rebuildWith
    (fun _ _ => TraceStep.outline_congr rfl rfl rfl rfl)
    (fun _ _ => TraceStep.outline_congr rfl rfl rfl rfl) registry passes settings logs

/-! ### The steps of a trace -/

namespace Rebuilding

/-- The filings of a run, the step that is open at last included. -/
def allFilings (registry : Registry) (settings : TraceSettings) (logs : List LogInput) :
    List Filing :=
  (behind registry settings logs []).filings (occurrences settings logs) ++
    (behind registry settings logs (occurrences settings logs)).closing

variable (registry : Registry) (settings : TraceSettings) (logs : List LogInput)

theorem book_close_behind :
    (behind registry settings logs (occurrences settings logs)).close.book =
      ((allFilings registry settings logs).foldl file (behind registry settings logs [])).book := by
  rw [allFilings, book_close, List.foldl_append]
  exact book_foldl_file (book_foldl_undergo (behind registry settings logs []) _) _

/-- The steps of a run are filed one after the other. -/
theorem isSuccession_allFilings :
    IsSuccession (occurrences settings logs)
      (behind registry settings logs (occurrences settings logs)).sequence
      (titles (allFilings registry settings logs)) := by
  rw [allFilings, titles_append, titles_closing]
  exact isSuccession_behind (isChronological_occurrences settings logs)

/-- The steps among them that were not closed were made for exceptions. -/
theorem exists_fatalStep_of_mem_allFilings {s : TraceStep}
    (h : .fatal s ∈ allFilings registry settings logs) :
    ∃ (u : Rebuilding) (log : LogInput) (message : String),
      .fatal log message ∈ occurrences settings logs ∧ s = u.fatalStep message log := by
  rcases List.mem_append.mp h with h | h
  · obtain ⟨earlier, o, later, hrun, hfiled⟩ := exists_of_mem_filings h
    obtain ⟨u, log, message, rfl, hs⟩ := exists_fatalStep_of_mem_filed hfiled
    exact ⟨u, log, message, by simp [hrun], hs⟩
  · exact absurd h (fatal_not_mem_closing _ s)

/-- The steps for exceptions among them have the messages of these. -/
theorem fatal_of_mem_allFilings {s : TraceStep} (h : .fatal s ∈ allFilings registry settings logs) :
    s.IsFatal ∧ s.result = .error ∧ ∃ log message,
      .fatal log message ∈ occurrences settings logs ∧ s.errorMessage = some message := by
  obtain ⟨u, log, message, hexception, rfl⟩ :=
    exists_fatalStep_of_mem_allFilings registry settings logs h
  exact ⟨rfl, rfl, log, message, hexception, rfl⟩

/-- The table and the steps of a run, after the first filings of it. -/
theorem isTable_of_prefix {before after : List Filing}
    (h : allFilings registry settings logs = before ++ after) :
    let t := before.foldl file (behind registry settings logs [])
    IsTable settings.dedupWindow t.seen t.stepTitles := by
  have hordered := (isSuccession_allFilings registry settings logs).ordered.imp And.right
  rw [h, titles_append, List.pairwise_append] at hordered
  exact isTable_foldl_file (t := behind registry settings logs []) rfl before rfl hordered.1
    fun s hs => (fatal_of_mem_allFilings registry settings logs
      (h ▸ List.mem_append_left _ hs)).1

/-- **The steps of a trace.**  They stand in the order of their numbers and times.  Each has a
number in its journey, or it failed with a message.  Two with the same journey and number are
later than each other by more than the window, except for those that stand for an exception; and
these are of logs that an exception ended. -/
theorem steps_rebuildWith (registry : Registry) (passes : List Pass) (settings : TraceSettings)
    (logs : List LogInput) (hread : ∀ log ∈ logs, log.IsRecorded) :
    let steps := (rebuildWith registry passes settings logs).2.steps
    (steps.Pairwise fun a b =>
      a.sequence < b.sequence ∧ a.timestamp.instant ≤ b.timestamp.instant) ∧
    (∀ s ∈ steps, 0 < s.order ∨
      s.result = .error ∧ ∃ message, s.errorMessage = some message ∧ message ≠ "") ∧
    (steps.Pairwise fun a b => ¬ a.IsFatal → ¬ b.IsFatal →
      a.journeyId.shown = b.journeyId.shown → a.order = b.order →
      settings.dedupWindow.count * 1000 < b.timestamp.instant - a.timestamp.instant) ∧
    (∀ s ∈ steps, s.IsFatal → ∃ log ∈ logs, (fatalOf? log.clips).isSome ∧
      s.logId = log.id ∧ s.timestamp = log.timestamp) := by
  intro steps
  let last := (allFilings registry settings logs).foldl file (behind registry settings logs [])
  have houtline : steps.map TraceStep.outline = last.steps.map TraceStep.outline := by
    rw [← show _ = last.steps from congrArg Prod.fst (book_close_behind registry settings logs)]
    exact outline_steps_rebuildWith registry passes settings logs
  have htitles : steps.map TraceStep.title = last.stepTitles := by
    have hfst := congrArg (List.map Prod.fst) houtline
    rwa [List.map_map, List.map_map] at hfst
  have hsuccession := isSuccession_allFilings registry settings logs
  have hsublist : (steps.map TraceStep.title).Sublist
      (titles (allFilings registry settings logs)) :=
    htitles ▸ sublist_stepTitles rfl _
  refine ⟨?_, ?_, ?_, ?_⟩
  · exact List.pairwise_map.mp (hsuccession.ordered.sublist hsublist)
  · intro s hs
    obtain ⟨s', hs', heq⟩ := List.mem_map.mp (houtline ▸ List.mem_map_of_mem hs)
    obtain ⟨htitle, hresult, hmessage⟩ := TraceStep.outline_eq_iff.mp heq
    have hkept := isKept_of_mem_steps (t := behind registry settings logs []) rfl
      (allFilings registry settings logs) (fun s hs => ?_) s' hs'
    · rwa [isKept_iff, hresult, hmessage, show s'.order = s.order from
        congrArg (fun x => x.header.order) htitle] at hkept
    · obtain ⟨-, hresult, log, message, hexception, hmessage⟩ :=
        fatal_of_mem_allFilings registry settings logs hs
      obtain ⟨hlog, e, time, hlast, rfl⟩ := exists_of_fatal_mem_occurrences hexception
      exact (isKept_iff s).mpr
        (Or.inr ⟨hresult, e.message, hmessage, (hread log hlog).message_ne_empty hlast⟩)
  · have htable : IsTable settings.dedupWindow last.seen last.stepTitles :=
      isTable_of_prefix registry settings logs (List.append_nil _).symm
    rw [← htitles] at htable
    refine (List.pairwise_map.mp htable.apart).imp fun {a b} hapart ha hb hjourney horder => ?_
    exact hapart ((TraceStep.isFatal_title_iff a).not.mpr ha)
      ((TraceStep.isFatal_title_iff b).not.mpr hb) (StepTitle.key_eq_of_eq hjourney horder)
  · intro s hs hs'
    obtain ⟨o, ho, log, -, hid, htime, hexception⟩ :=
      hsuccession.log _ (hsublist.mem (List.mem_map_of_mem hs))
    obtain ⟨message, rfl⟩ := hexception ((TraceStep.isFatal_title_iff s).mpr hs')
    obtain ⟨hlog, e, time, hlast, -⟩ := exists_of_fatal_mem_occurrences ho
    exact ⟨log, hlog, by simp [hlast], hid, htime⟩

/-- A log in which the orchestration moves to a step, and some clips after that. -/
def movingLog (id : String) (timestamp : Timestamp) (number : String) (clips : List Clip) :
    LogInput where
  id
  timestamp
  policyId := "P"
  correlationId := "C"
  clips :=
    [.headers { eventInstance := "Event:AUTH", policyId := "P" },
      .action Handler.orchestration, .handlerResult (movingTo number)] ++ clips

/-- The report of a page on which a password is wrong. -/
def wrongPassword : List Clip :=
  [.action Handler.selfAssertedValidation,
    .handlerResult
      { result := true
        exception := some (.mk "Invalid username or password." none none none) }]

/-- The group of this report. -/
def wrongPasswordGroup : HandlerGroup where
  handler := Handler.selfAssertedValidation
  predicate := none
  result := some
    { result := true, exception := some (.mk "Invalid username or password." none none none) }
  clips := wrongPassword
  index := 3

/-- A first step that is repeated at once, by a log that an exception ended. -/
def brokenOff : List LogInput :=
  [movingLog "a" (after 0) "1" [], movingLog "b" (after 200) "2" [],
    movingLog "c" (after 400) "1" [.fatal (.mk "Down" none none none) none]]

/-- The steps of a trace that breaks off in a repetition. -/
theorem steps_brokenOff :
    (∀ log ∈ brokenOff, log.IsRecorded) ∧
      let steps := (rebuild {} brokenOff).steps
      (steps.Pairwise fun a b =>
        a.sequence < b.sequence ∧ a.timestamp.instant ≤ b.timestamp.instant) ∧
      (∀ s ∈ steps, 0 < s.order ∨
        s.result = .error ∧ ∃ message, s.errorMessage = some message ∧ message ≠ "") ∧
      (steps.Pairwise fun a b => ¬ a.IsFatal → ¬ b.IsFatal →
        a.journeyId.shown = b.journeyId.shown → a.order = b.order →
        1000 * 1000 < b.timestamp.instant - a.timestamp.instant) ∧
      (∀ s ∈ steps, s.IsFatal → ∃ log ∈ brokenOff, (fatalOf? log.clips).isSome ∧
        s.logId = log.id ∧ s.timestamp = log.timestamp) := by
  have hread : ∀ log ∈ brokenOff, log.IsRecorded := by
    -- the clips are those that their own description makes
    simp only [brokenOff, List.forall_mem_cons, List.not_mem_nil, false_imp_iff, implies_true,
      and_true]
    exact ⟨⟨.list ((movingLog "a" (after 0) "1" []).clips.map Clip.write), rfl⟩,
      ⟨.list ((movingLog "b" (after 200) "2" []).clips.map Clip.write), rfl⟩,
      ⟨.list ((movingLog "c" (after 400) "1"
        [.fatal (.mk "Down" none none none) none]).clips.map Clip.write), rfl⟩⟩
  exact ⟨hread, steps_rebuildWith (Registry.standard ({} : TraceSettings).orchestrationReset)
    Pass.standard {} brokenOff hread⟩

end Rebuilding

end TrustFramework
