import TrustFramework.Proofs.Number.Rounding
import TrustFramework.Proofs.Trace.Orchestration

/-!
# Steps and pauses

The orchestration opens a step for a number unless it opened its last step for the same number and
no two numbers that it was told since lie a pause apart.  How long a gap is comes out of two
roundings: the seconds are rounded, and a thousand times as many are.  For pauses of up to `2 ^ 41`
milliseconds that matters only where a gap is as long as a pause has to be, and no longer.

## Main definitions

* `Response`, `Orchestration.responses` — the numbers that the orchestration is told in a run, and
  what it does about them.
* `IsDue` — a step is to be opened.
* `HangsOnRounding` — whether it is depends on a gap that is as long as a pause has to be.

## Main results

* `countsAsPause_iff` — **which gaps count as a pause.**
* `isDue_countsAsPause_iff` — where a step hangs on that.
* `Orchestration.Recalls.follow` — what the orchestration remembers of its responses.
* `Orchestration.opens_iff` — **when it opens a step.**
-/

namespace TrustFramework

/-! ### Gaps -/

/-- The time between two moments counts as a pause. -/
def CountsAsPause (reset : Milliseconds) (s t : Timestamp) : Prop :=
  Interpreter.isPause reset s t = true

/-- The time between two moments is longer than so many milliseconds. -/
def Exceeds (reset : Milliseconds) (s t : Timestamp) : Prop :=
  1000 * reset.count < t.instant - s.instant

instance (reset : Milliseconds) (s t : Timestamp) : Decidable (Exceeds reset s t) :=
  inferInstanceAs (Decidable (_ < _))

/-- The time between two moments is so many milliseconds. -/
def Meets (reset : Milliseconds) (s t : Timestamp) : Prop :=
  t.instant - s.instant = 1000 * reset.count

/-- Some two moments that follow each other are so related. -/
def HasGap (R : Timestamp → Timestamp → Prop) (moments : List Timestamp) : Prop :=
  ∃ before s t behind, moments = before ++ s :: t :: behind ∧ R s t

theorem hasGap_iff {R : Timestamp → Timestamp → Prop} {moments : List Timestamp} :
    HasGap R moments ↔ ¬ moments.IsChain fun s t => ¬ R s t := by
  rw [List.isChain_iff_forall_rel_of_append_cons_cons]
  unfold HasGap
  push Not
  constructor
  · rintro ⟨before, s, t, behind, heq, hgap⟩
    exact ⟨s, t, before, behind, heq, hgap⟩
  · rintro ⟨s, t, before, behind, heq, hgap⟩
    exact ⟨before, s, t, behind, heq, hgap⟩

theorem not_hasGap_singleton (R : Timestamp → Timestamp → Prop) (t : Timestamp) :
    ¬ HasGap R [t] := by
  rw [hasGap_iff, not_not]
  exact List.isChain_singleton t

/-- One more moment makes one more gap. -/
theorem hasGap_append_append {R : Timestamp → Timestamp → Prop} (moments : List Timestamp)
    (s t : Timestamp) :
    HasGap R (moments ++ [s] ++ [t]) ↔ HasGap R (moments ++ [s]) ∨ R s t := by
  rw [hasGap_iff, hasGap_iff, List.append_assoc, List.singleton_append,
    List.isChain_append_cons_cons]
  have hlast : List.IsChain (fun s t => ¬ R s t) [t] := List.isChain_singleton t
  tauto

/-- A gap as long as a pause has to be comes out longer, by the rounding of its seconds. -/
def Milliseconds.isRoundedUp (reset : Milliseconds) : Bool :=
  ((Binary64.ofIntRatio (1000 * reset.count) Timestamp.second).times 1000).compareInt?
    reset.count == some .gt

/-- A gap that is not as long as a pause has to be is rounded to the side where it is. -/
theorem times_ofIntRatio_gt_iff {reset gap : Int} (hreset : reset ≤ 2 ^ 41) (hgap : 0 ≤ gap)
    (hne : gap ≠ 1000 * reset) :
    ((Binary64.ofIntRatio gap Timestamp.second).times 1000).compareInt? reset = some .gt ↔
      1000 * reset < gap := by
  rcases hgap.eq_or_lt with rfl | hpos
  · have hzero : (Binary64.ofIntRatio 0 Timestamp.second).times 1000 =
        Binary64.finite false 0 Binary64.minExponent := by decide
    rw [hzero, Binary64.compareInt?_finite, Nat.cast_zero, zero_mul]
    constructor
    · intro hlt
      have hneg : reset < 0 := by exact_mod_cast hlt
      omega
    · intro hlt
      have hneg : reset < 0 := by omega
      exact_mod_cast hneg
  · have hgapq : ((gap.natAbs : Nat) : ℚ) = gap := by
      rw [← Int.cast_natCast, Int.natAbs_of_nonneg hgap]
    have hresetq : (reset : ℚ) ≤ 2 ^ 41 := by exact_mod_cast hreset
    have hposq : (0 : ℚ) < gap := by exact_mod_cast hpos
    have hlog : Timestamp.second.log2 ≤ 900 := by decide
    rw [Binary64.ofIntRatio, decide_eq_false (by omega)]
    rcases Binary64.times_ofRatio_cases (n := gap.natAbs) (d := Timestamp.second) (k := 1000)
      (by omega) (by decide) hlog (by decide) with ⟨hround, hgreat⟩ | ⟨m, e, hround, hlo, hhi⟩
    · -- a gap that is out of range is longer than any pause
      rw [hround, Binary64.compareInt?_infinite]
      refine iff_of_true rfl ?_
      rw [hgapq] at hgreat
      have hlong : (1000 : ℚ) * reset < gap := by
        norm_num [Timestamp.second] at hgreat hresetq
        linarith
      exact_mod_cast hlong
    · -- any other is off by less than a microsecond
      rw [hround, Binary64.compareInt?_finite]
      rw [hgapq] at hlo hhi
      norm_num [Timestamp.second] at hlo hhi hresetq
      constructor
      · intro hlt
        by_contra hle
        have hshort : (gap : ℚ) ≤ 1000 * reset - 1 := by
          have h : gap ≤ 1000 * reset - 1 := by omega
          exact_mod_cast h
        linarith
      · intro hlt
        have hlong : (1000 : ℚ) * reset + 1 ≤ gap := by
          have h : 1000 * reset + 1 ≤ gap := by omega
          exact_mod_cast h
        linarith

/-- **Which gaps count as a pause**, for pauses of up to `2 ^ 41` milliseconds: the longer ones, and
those that are as long as a pause has to be if their seconds are rounded up. -/
theorem countsAsPause_iff {reset : Milliseconds} (hreset : reset.count ≤ 2 ^ 41) {s t : Timestamp}
    (hle : s.instant ≤ t.instant) :
    CountsAsPause reset s t ↔
      Exceeds reset s t ∨ (Meets reset s t ∧ reset.isRoundedUp = true) := by
  unfold CountsAsPause Interpreter.isPause Timestamp.elapsed Exceeds Meets Milliseconds.isRoundedUp
  by_cases hmeets : t.instant - s.instant = 1000 * reset.count
  · rw [hmeets]
    simp
  · simp only [hmeets, false_and, or_false, beq_iff_eq]
    exact times_ofIntRatio_gt_iff hreset (by omega) hmeets

/-- In the order of time, some gap counts as a pause if one is longer, or one is as long and rounded
up. -/
theorem hasGap_countsAsPause_iff {reset : Milliseconds} (hreset : reset.count ≤ 2 ^ 41)
    {moments : List Timestamp}
    (hsorted : moments.Pairwise fun s t => s.instant ≤ t.instant) :
    HasGap (CountsAsPause reset) moments ↔ HasGap (Exceeds reset) moments ∨
      (HasGap (Meets reset) moments ∧ reset.isRoundedUp = true) := by
  have hle := List.isChain_iff_forall_rel_of_append_cons_cons.mp hsorted.isChain
  constructor
  · rintro ⟨before, s, t, behind, heq, hpause⟩
    rcases (countsAsPause_iff hreset (hle heq)).mp hpause with hlonger | ⟨hmeets, hrounded⟩
    · exact Or.inl ⟨before, s, t, behind, heq, hlonger⟩
    · exact Or.inr ⟨⟨before, s, t, behind, heq, hmeets⟩, hrounded⟩
  · rintro (⟨before, s, t, behind, heq, hlonger⟩ | ⟨⟨before, s, t, behind, heq, hmeets⟩, hrounded⟩)
    · exact ⟨before, s, t, behind, heq, (countsAsPause_iff hreset (hle heq)).mpr (Or.inl hlonger)⟩
    · exact ⟨before, s, t, behind, heq,
        (countsAsPause_iff hreset (hle heq)).mpr (Or.inr ⟨hmeets, hrounded⟩)⟩

/-- A second comes out as it is. -/
example : (⟨1000, false⟩ : Milliseconds).isRoundedUp = false := by decide

/-! ### Responses -/

/-- A number that the orchestration was told, and whether it opened a step for it. -/
structure Response where
  sighting : Sighting
  opened : Bool
  deriving DecidableEq, Repr

/-- The number that opened the last step, and those that were told since. -/
def lastOpened? (told : List Response) : Option (Sighting × List Sighting) :=
  told.foldl (fun last x =>
    if x.opened then some (x.sighting, [])
    else last.map fun (s, later) => (s, later ++ [x.sighting])) none

theorem lastOpened?_append_singleton (told : List Response) (x : Response) :
    lastOpened? (told ++ [x]) =
      if x.opened then some (x.sighting, [])
      else (lastOpened? told).map fun (s, later) => (s, later ++ [x.sighting]) := by
  rw [lastOpened?, List.foldl_append]
  rfl

theorem lastOpened?_eq_none_iff {told : List Response} :
    lastOpened? told = none ↔ ∀ x ∈ told, x.opened = false := by
  induction told using List.reverseRecOn with
  | nil => simp [lastOpened?]
  | append_singleton told x ih =>
    rw [lastOpened?_append_singleton]
    cases hx : x.opened with
    | true => simp [hx]
    | false => simp [ih, hx, or_imp, forall_and]

/-- The last step was opened by the last of the numbers that opened one. -/
theorem eq_of_lastOpened? {told : List Response} {s : Sighting} {later : List Sighting}
    (h : lastOpened? told = some (s, later)) :
    ∃ earlier rest, told = earlier ++ ⟨s, true⟩ :: rest ∧ (∀ x ∈ rest, x.opened = false) ∧
      later = rest.map Response.sighting := by
  induction told using List.reverseRecOn generalizing later with
  | nil => cases h
  | append_singleton told x ih =>
    rw [lastOpened?_append_singleton] at h
    cases hx : x.opened with
    | true =>
      rw [hx, if_pos rfl] at h
      cases h
      refine ⟨told, [], ?_, by simp, rfl⟩
      rw [← hx]
    | false =>
      rw [hx, if_neg Bool.false_ne_true] at h
      obtain ⟨⟨s', later'⟩, hlast, heq⟩ := Option.map_eq_some_iff.mp h
      cases heq
      obtain ⟨earlier, rest, rfl, hrest, rfl⟩ := ih hlast
      refine ⟨earlier, rest ++ [x], by simp, ?_, by simp⟩
      intro y hy
      rcases List.mem_append.mp hy with hy | hy
      · exact hrest y hy
      · rw [List.mem_singleton.mp hy, hx]

/-- The moments from the number that opened the last step until now. -/
def momentsSince (s : Sighting) (later : List Sighting) (now : Timestamp) : List Timestamp :=
  (s :: later).map Sighting.moment ++ [now]

theorem hasGap_momentsSince_nil {R : Timestamp → Timestamp → Prop} (s : Sighting)
    (now : Timestamp) : HasGap R (momentsSince s [] now) ↔ R s.moment now := by
  have hsplit : momentsSince s [] now = [] ++ [s.moment] ++ [now] := rfl
  rw [hsplit, hasGap_append_append, List.nil_append, or_iff_right (not_hasGap_singleton R _)]

theorem hasGap_momentsSince_append {R : Timestamp → Timestamp → Prop} (s : Sighting)
    (later : List Sighting) (x : Sighting) (now : Timestamp) :
    HasGap R (momentsSince s (later ++ [x]) now) ↔
      HasGap R (momentsSince s later x.moment) ∨ R x.moment now := by
  have hsplit : momentsSince s (later ++ [x]) now =
      (s :: later).map Sighting.moment ++ [x.moment] ++ [now] := by
    simp [momentsSince]
  rw [hsplit, hasGap_append_append]
  rfl

/-- A step is to be opened for a number: none was opened yet, or the last one for another number,
or there was a pause since. -/
def IsDue (pause : Timestamp → Timestamp → Prop) (told : List Response) (now : Timestamp)
    (n : Int) : Prop :=
  (∀ x ∈ told, x.opened = false) ∨ ∃ s later, lastOpened? told = some (s, later) ∧
    (n ≠ s.number ∨ HasGap pause (momentsSince s later now))

/-- Whether a step is opened for a number hangs on how a gap is rounded that is as long as a pause
has to be: the last step was opened for that number, and no gap since is longer. -/
def HangsOnRounding (reset : Milliseconds) (told : List Response) (now : Timestamp) (n : Int) :
    Prop :=
  reset.isRoundedUp = true ∧ ∃ s later, lastOpened? told = some (s, later) ∧ s.number = n ∧
    HasGap (Meets reset) (momentsSince s later now) ∧
    ¬ HasGap (Exceeds reset) (momentsSince s later now)

theorem isDue_of_lastOpened?_eq_none {pause : Timestamp → Timestamp → Prop}
    {told : List Response} {now : Timestamp} {n : Int} (h : lastOpened? told = none) :
    IsDue pause told now n := Or.inl (lastOpened?_eq_none_iff.mp h)

theorem isDue_iff_of_lastOpened? {pause : Timestamp → Timestamp → Prop} {told : List Response}
    {now : Timestamp} {n : Int} {s : Sighting} {later : List Sighting}
    (h : lastOpened? told = some (s, later)) :
    IsDue pause told now n ↔ n ≠ s.number ∨ HasGap pause (momentsSince s later now) := by
  unfold IsDue
  rw [← lastOpened?_eq_none_iff, h]
  constructor
  · rintro (hnone | ⟨s', later', heq, hdue⟩)
    · cases hnone
    · cases heq
      exact hdue
  · intro hdue
    exact Or.inr ⟨s, later, rfl, hdue⟩

theorem hangsOnRounding_iff_of_lastOpened? {reset : Milliseconds} {told : List Response}
    {now : Timestamp} {n : Int} {s : Sighting} {later : List Sighting}
    (h : lastOpened? told = some (s, later)) :
    HangsOnRounding reset told now n ↔ reset.isRoundedUp = true ∧ s.number = n ∧
      HasGap (Meets reset) (momentsSince s later now) ∧
        ¬ HasGap (Exceeds reset) (momentsSince s later now) := by
  unfold HangsOnRounding
  rw [h]
  constructor
  · rintro ⟨hrounded, s', later', heq, hhangs⟩
    cases heq
    exact ⟨hrounded, hhangs⟩
  · rintro ⟨hrounded, hhangs⟩
    exact ⟨hrounded, s, later, rfl, hhangs⟩

/-- **Rounding the gaps makes no difference**, but where a step hangs on it. -/
theorem isDue_countsAsPause_iff {reset : Milliseconds} (hreset : reset.count ≤ 2 ^ 41)
    {told : List Response} {now : Timestamp} {n : Int}
    (hsorted : ∀ s later, lastOpened? told = some (s, later) →
      (momentsSince s later now).Pairwise fun s t => s.instant ≤ t.instant) :
    (IsDue (CountsAsPause reset) told now n ↔ IsDue (Exceeds reset) told now n) ↔
      ¬ HangsOnRounding reset told now n := by
  cases hlast : lastOpened? told with
  | none =>
    have hdue : ∀ pause, IsDue pause told now n :=
      fun pause => isDue_of_lastOpened?_eq_none hlast
    refine iff_of_true (iff_of_true (hdue _) (hdue _)) ?_
    rintro ⟨-, s, later, hsome, -⟩
    rw [hlast] at hsome
    cases hsome
  | some last =>
    obtain ⟨s, later⟩ := last
    rw [hangsOnRounding_iff_of_lastOpened? hlast, isDue_iff_of_lastOpened? hlast,
      isDue_iff_of_lastOpened? hlast, hasGap_countsAsPause_iff hreset (hsorted s later hlast),
      ne_eq, eq_comm (a := n)]
    tauto

/-! ### A run of the orchestration -/

/-- The number that a group carries for the orchestration, if it has a result with one. -/
def numberIn? (c : Context) : Option Int := c.result.bind (numberOf? c.statebag)

namespace Orchestration

/-- Whether the orchestration asks for a step to be opened. -/
def opens (m : Orchestration) (c : Context) : Bool :=
  (Interpreter.orchestration.interpret m c).any fun answer => answer.findings.createStep

/-- What the orchestration remembers behind one more group. -/
def follow (m : Orchestration) (c : Context) : Orchestration :=
  ((Interpreter.orchestration.interpret m c).map Interpretation.memory).getD m

/-- The response to a group, if it carries a number. -/
def response? (m : Orchestration) (c : Context) : Option Response :=
  (numberIn? c).map fun n => ⟨⟨c.timestamp, n⟩, m.opens c⟩

/-- The responses to the groups of a run. -/
def responses (m : Orchestration) : List Context → List Response
  | [] => []
  | c :: rest => (m.response? c).toList ++ (m.follow c).responses rest

theorem responses_append_singleton (m : Orchestration) (past : List Context) (c : Context) :
    m.responses (past ++ [c]) =
      m.responses past ++ ((past.foldl follow m).response? c).toList := by
  induction past generalizing m with
  | nil => simp [responses]
  | cons p past ih =>
    rw [List.cons_append, responses, ih, ← List.append_assoc]
    rfl

theorem sublist_responses (m : Orchestration) (past : List Context) :
    ((m.responses past).map fun x => x.sighting.moment).Sublist (past.map Context.timestamp) := by
  induction past generalizing m with
  | nil => exact List.Sublist.refl _
  | cons c past ih =>
    rw [responses, List.map_append, List.map_cons]
    unfold response?
    cases numberIn? c with
    | none => exact (ih _).cons _
    | some n => exact (ih _).cons_cons _

section

variable {m : Orchestration} {c : Context}

/-- A group without a number is not noticed. -/
theorem follow_of_none (h : numberIn? c = none) : m.opens c = false ∧ m.follow c = m := by
  unfold opens follow Interpreter.interpret
  rw [if_neg (by decide)]
  cases hresult : c.result with
  | none => exact ⟨rfl, rfl⟩
  | some r =>
    rw [numberIn?, hresult, Option.bind_some] at h
    refine ⟨?_, memory_readOrchestration_of_none m c h⟩
    unfold numberOf? at h
    simp [Interpreter.readOrchestration, h, Findings.failure]

/-- A group with a number is noted. -/
theorem follow_of_some {n : Int} (h : numberIn? c = some n) :
    m.follow c = m.noted ⟨c.timestamp, n⟩ := by
  obtain ⟨r, hresult, hnumber⟩ := Option.bind_eq_some_iff.mp h
  unfold follow Interpreter.interpret
  rw [if_neg (by decide), hresult]
  exact memory_readOrchestration m c hnumber

/-- A step is opened for the number of a step that is not remembered. -/
theorem opens_of_some {n : Int} (h : numberIn? c = some n) :
    m.opens c = true ↔ 0 < n ∧ (Interpreter.seen m c.timestamp).lastStep ≠ n := by
  obtain ⟨r, hresult, hnumber⟩ := Option.bind_eq_some_iff.mp h
  unfold opens Interpreter.interpret
  rw [if_neg (by decide), hresult]
  show (Interpreter.readOrchestration m c r).findings.createStep = true ↔ _
  by_cases hopens : 0 < n ∧ (Interpreter.seen m c.timestamp).lastStep ≠ n
  · obtain ⟨-, -, hcreate, -⟩ := readOrchestration_of_ne m c hnumber hopens.1 hopens.2
    exact iff_of_true hcreate hopens
  · refine iff_of_false ?_ hopens
    unfold numberOf? at hnumber
    unfold Interpreter.readOrchestration
    simp only [hnumber]
    rw [if_neg]
    · simp [Findings.ofResult]
    · intro hcond
      rw [Bool.and_eq_true, decide_eq_true_eq, decide_eq_true_eq] at hcond
      exact hopens ⟨hcond.1, Ne.symm hcond.2⟩

end

/-! ### What the orchestration remembers -/

/-- The orchestration remembers the number that it opened the last step for, until there is a
pause. -/
structure Recalls (reset : Milliseconds) (told : List Response) (m : Orchestration) : Prop where
  same : m.reset = reset
  unopened : lastOpened? told = none → ∀ now, (Interpreter.seen m now).lastStep = 0
  opened : ∀ {s later}, lastOpened? told = some (s, later) → ∀ now,
    (HasGap (CountsAsPause reset) (momentsSince s later now) →
      (Interpreter.seen m now).lastStep = 0) ∧
    (¬ HasGap (CountsAsPause reset) (momentsSince s later now) →
      (Interpreter.seen m now).lastStep = s.number)

variable {reset : Milliseconds} {told : List Response} {m : Orchestration}

theorem recalls_nil (reset : Milliseconds) : Recalls reset [] { reset } :=
  ⟨rfl, fun _ _ => rfl, fun h => by cases h⟩

/-- A number that opens no step leaves what is remembered, unless it comes behind a pause. -/
theorem lastStep_noted_of_not_opens {c : Context} {n : Int} (hnumber : numberIn? c = some n)
    (hopens : m.opens c = false) :
    (m.noted ⟨c.timestamp, n⟩).lastStep = (Interpreter.seen m c.timestamp).lastStep := by
  rw [noted]
  dsimp only
  split
  · next hpos =>
    by_contra hne
    have hopens' : m.opens c = true := (opens_of_some hnumber).mpr ⟨hpos, Ne.symm hne⟩
    rw [hopens] at hopens'
    cases hopens'
  · rfl

/-- A number that opens a step is remembered. -/
theorem Recalls.of_opens (h : Recalls reset told m) {c : Context} {n : Int}
    (hnumber : numberIn? c = some n) (hopens : m.opens c = true) :
    Recalls reset (told ++ [⟨⟨c.timestamp, n⟩, true⟩]) (m.noted ⟨c.timestamp, n⟩) := by
  obtain ⟨hpos, -⟩ := (opens_of_some hnumber).mp hopens
  refine ⟨h.same, ?_, ?_⟩
  · intro hnone
    rw [lastOpened?_append_singleton, if_pos rfl] at hnone
    cases hnone
  · intro s later hlast
    rw [lastOpened?_append_singleton, if_pos rfl] at hlast
    cases hlast
    intro now
    rw [hasGap_momentsSince_nil, CountsAsPause, lastStep_seen_noted, h.same, noted]
    dsimp only
    constructor
    · intro hpause
      rw [if_pos hpause]
    · intro hpause
      rw [if_neg hpause, if_pos hpos]

/-- A number that opens none is one more moment. -/
theorem Recalls.of_not_opens (h : Recalls reset told m) {c : Context} {n : Int}
    (hnumber : numberIn? c = some n) (hopens : m.opens c = false) :
    Recalls reset (told ++ [⟨⟨c.timestamp, n⟩, false⟩]) (m.noted ⟨c.timestamp, n⟩) := by
  refine ⟨h.same, ?_, ?_⟩
  · intro hnone now
    rw [lastOpened?_append_singleton, if_neg Bool.false_ne_true, Option.map_eq_none_iff] at hnone
    rw [lastStep_seen_noted, lastStep_noted_of_not_opens hnumber hopens, h.unopened hnone]
    split <;> rfl
  · intro s later hlast
    rw [lastOpened?_append_singleton, if_neg Bool.false_ne_true] at hlast
    obtain ⟨⟨s', later'⟩, hlast', heq⟩ := Option.map_eq_some_iff.mp hlast
    cases heq
    obtain ⟨hforgets, hkeeps⟩ := h.opened hlast' c.timestamp
    intro now
    rw [hasGap_momentsSince_append, CountsAsPause, lastStep_seen_noted, h.same,
      lastStep_noted_of_not_opens hnumber hopens]
    dsimp only
    constructor
    · rintro (hgap | hpause)
      · rw [hforgets hgap]
        split <;> rfl
      · rw [if_pos hpause]
    · intro hno
      rw [not_or] at hno
      rw [if_neg hno.2, hkeeps hno.1]

/-- **Step.**  What the orchestration remembers behind one more group. -/
theorem Recalls.follow (h : Recalls reset told m) (c : Context) :
    Recalls reset (told ++ (m.response? c).toList) (m.follow c) := by
  unfold response?
  cases hnumber : numberIn? c with
  | none =>
    rw [(follow_of_none hnumber).2]
    simpa using h
  | some n =>
    rw [follow_of_some hnumber]
    show Recalls reset (told ++ [⟨⟨c.timestamp, n⟩, m.opens c⟩]) _
    cases hopens : m.opens c with
    | true => exact h.of_opens hnumber hopens
    | false => exact h.of_not_opens hnumber hopens

/-- **Run.**  What it remembers behind a run that began with nothing to remember. -/
theorem recalls_foldl_follow (reset : Milliseconds) (past : List Context) :
    Recalls reset (responses { reset } past) (past.foldl Orchestration.follow { reset }) := by
  induction past using List.reverseRecOn with
  | nil => exact recalls_nil reset
  | append_singleton past c ih =>
    rw [responses_append_singleton, List.foldl_append]
    exact ih.follow c

/-- A step is opened for a number when it is due, with the gaps as they are rounded. -/
theorem Recalls.opens_iff_isDue (h : Recalls reset told m) {c : Context} {n : Int}
    (hnumber : numberIn? c = some n) (hn : 1 ≤ n) :
    m.opens c = true ↔ IsDue (CountsAsPause reset) told c.timestamp n := by
  rw [opens_of_some hnumber]
  cases hlast : lastOpened? told with
  | none =>
    refine iff_of_true ⟨by omega, ?_⟩ (isDue_of_lastOpened?_eq_none hlast)
    rw [h.unopened hlast]
    omega
  | some last =>
    obtain ⟨s, later⟩ := last
    obtain ⟨hforgets, hkeeps⟩ := h.opened hlast c.timestamp
    rw [isDue_iff_of_lastOpened? hlast]
    by_cases hgap : HasGap (CountsAsPause reset) (momentsSince s later c.timestamp)
    · rw [hforgets hgap]
      exact iff_of_true ⟨by omega, by omega⟩ (Or.inr hgap)
    · rw [hkeeps hgap]
      constructor
      · rintro ⟨-, hne⟩
        exact Or.inl (Ne.symm hne)
      · rintro (hne | hgap')
        · exact ⟨by omega, Ne.symm hne⟩
        · exact absurd hgap' hgap

/-! ### Runs in the order of time -/

/-- The moments since the last step was opened are among those of the run. -/
theorem sublist_momentsSince {m : Orchestration} {past : List Context} {s : Sighting}
    {later : List Sighting} (h : lastOpened? (m.responses past) = some (s, later)) (c : Context) :
    (momentsSince s later c.timestamp).Sublist ((past ++ [c]).map Context.timestamp) := by
  obtain ⟨earlier, rest, heq, -, rfl⟩ := eq_of_lastOpened? h
  have hresponses := sublist_responses m past
  rw [heq, List.map_append, List.map_cons] at hresponses
  have hsince : (s.moment :: rest.map fun x => x.sighting.moment).Sublist
      (past.map Context.timestamp) := (List.sublist_append_right _ _).trans hresponses
  unfold momentsSince
  rw [List.map_append, List.map_cons, List.map_map, List.map_singleton]
  exact hsince.append (List.Sublist.refl _)

/-- **When the orchestration opens a step.**  In any run in the order of time that began with
nothing to remember, a group without a number opens none and changes nothing, and a number that is
not positive opens none.  A number of a step opens one when that is due, with the gaps as they are
rounded; for pauses of up to `2 ^ 41` milliseconds that is when it is due with the gaps as they
are, but exactly where it hangs on how a gap as long as a pause has to be is rounded. -/
theorem opens_iff {reset : Milliseconds} {past : List Context} {c : Context}
    (hsorted : ((past ++ [c]).map Context.timestamp).Pairwise fun s t => s.instant ≤ t.instant) :
    let m := past.foldl Orchestration.follow { reset }
    let told := responses { reset } past
    (numberIn? c = none → m.opens c = false ∧ m.follow c = m) ∧
      ∀ n, numberIn? c = some n →
        (n ≤ 0 → m.opens c = false) ∧
        (1 ≤ n →
          (m.opens c = true ↔ IsDue (CountsAsPause reset) told c.timestamp n) ∧
          (reset.count ≤ 2 ^ 41 →
            ((m.opens c = true ↔ IsDue (Exceeds reset) told c.timestamp n) ↔
              ¬ HangsOnRounding reset told c.timestamp n))) := by
  intro m told
  have hrecalls : Recalls reset told m := recalls_foldl_follow reset past
  refine ⟨follow_of_none, ?_⟩
  intro n hnumber
  refine ⟨?_, ?_⟩
  · intro hn
    rw [Bool.eq_false_iff, ne_eq, opens_of_some hnumber]
    rintro ⟨hpos, -⟩
    omega
  · intro hn
    have hopens := hrecalls.opens_iff_isDue hnumber hn
    refine ⟨hopens, ?_⟩
    intro hreset
    rw [hopens]
    refine isDue_countsAsPause_iff hreset ?_
    intro s later hlast
    exact hsorted.sublist (sublist_momentsSince hlast c)

/-- A group that moves to the first step, so many milliseconds after the first one. -/
def movingAfter (ms : Nat) : Context where
  handler := Handler.orchestration
  result := some (Rebuilding.movingTo "1")
  timestamp := Rebuilding.after ms

/-- The same step is opened again after one and a half seconds, where a second is a pause. -/
theorem opens_behind_pause :
    let past := [movingAfter 0]
    let c := movingAfter 1500
    ((past ++ [c]).map Context.timestamp).Pairwise (fun s t => s.instant ≤ t.instant) ∧
      numberIn? c = some 1 ∧
      (past.foldl Orchestration.follow { reset := ⟨1000, false⟩ }).opens c = true := by
  intro past c
  have hsorted : ((past ++ [c]).map Context.timestamp).Pairwise
      fun s t => s.instant ≤ t.instant := by decide
  have hnumber : numberIn? c = some 1 := by decide
  have hrounded : (⟨1000, false⟩ : Milliseconds).isRoundedUp = false := by decide
  have hlast : lastOpened? (responses { reset := ⟨1000, false⟩ } past) =
      some (⟨Rebuilding.after 0, 1⟩, []) := by decide
  have hexceeds : Exceeds ⟨1000, false⟩ (Rebuilding.after 0) c.timestamp := by decide
  refine ⟨hsorted, hnumber, ?_⟩
  obtain ⟨-, hnumbers⟩ := @opens_iff ⟨1000, false⟩ past c hsorted
  obtain ⟨-, hopens⟩ := (hnumbers 1 hnumber).2 (by decide)
  refine ((hopens (by decide)).mpr ?_).mpr ?_
  · rintro ⟨hup, -⟩
    rw [hrounded] at hup
    cases hup
  · rw [isDue_iff_of_lastOpened? hlast, hasGap_momentsSince_nil]
    exact Or.inr hexceeds

/-- Where a pause is longer than 2007 milliseconds, a gap of as many is one: their seconds are
rounded up. -/
theorem opens_at_reset :
    let past := [movingAfter 0]
    let c := movingAfter 2007
    let m : Orchestration := { reset := ⟨2007, false⟩ }
    ((past ++ [c]).map Context.timestamp).Pairwise (fun s t => s.instant ≤ t.instant) ∧
      numberIn? c = some 1 ∧ (past.foldl Orchestration.follow m).opens c = true ∧
      ¬ IsDue (Exceeds ⟨2007, false⟩) (m.responses past) c.timestamp 1 := by
  intro past c m
  have hlast : lastOpened? (m.responses past) = some (⟨Rebuilding.after 0, 1⟩, []) := by
    decide
  have hexceeds : ¬ Exceeds ⟨2007, false⟩ (Rebuilding.after 0) c.timestamp := by decide
  refine ⟨by decide, by decide, by decide, ?_⟩
  rw [isDue_iff_of_lastOpened? hlast, hasGap_momentsSince_nil, not_or, not_not]
  exact ⟨rfl, hexceeds⟩

end Orchestration
end TrustFramework
