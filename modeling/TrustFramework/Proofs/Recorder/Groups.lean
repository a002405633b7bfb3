import Mathlib.Data.List.Basic
import TrustFramework.Recorder.Grouping

/-!
# The groups of a log by their places

Clips that name a handler and results are the marks of a log.  The marks around a handler tell its
group: the next one is its result if it is one, and the last one before an action is its guard if
it is a predicate.  So the groups of a log can be listed by going over its places, and each is
known without reading the log from the start.

## Main definitions

* `Clip.isMark` — a clip names a handler or is a result.
* `IsResultOf`, `IsGuardOf` — the marks next to a handler, by their places.
* `waitingAt`, `groupAt?` — the predicate that waits at a place, and the group of the handler there.
* `RunsAt` — a handler runs at a place.
* `IsPiece` — clips are a piece of a log around a handler.
* `IsGrouping` — groups are those of a log.

## Main results

* `handlerGroups_eq_filterMap` — the groups of a log are those of its places.
* `isGrouping_handlerGroups` — **every handler has one group, with the result and the guard next to
  it and a piece of the log of its own.**
-/

namespace TrustFramework

namespace Clip

/-- Whether a clip is a result. -/
def isResult : Clip → Bool
  | handlerResult _ => true
  | _ => false

/-- Whether a clip names a handler or is a result. -/
def isMark (clip : Clip) : Bool := clip.isBoundary || clip.isResult

end Clip

variable {clips : List Clip} {i j k : Nat} {handler : String} {r : HandlerResult}

/-! ### Marks next to a place -/

/-- No clip strictly between two places is a mark. -/
def IsCalm (clips : List Clip) (i j : Nat) : Prop :=
  ∀ k clip, i < k → k < j → clips[k]? = some clip → clip.isMark = false

/-- The next mark behind a place is a result. -/
structure IsResultOf (clips : List Clip) (i j : Nat) (r : HandlerResult) : Prop where
  lt : i < j
  result : clips[j]? = some (.handlerResult r)
  calm : IsCalm clips i j

/-- The last mark before a place is a predicate. -/
structure IsGuardOf (clips : List Clip) (j i : Nat) (handler : String) : Prop where
  lt : j < i
  predicate : clips[j]? = some (.predicate handler)
  calm : IsCalm clips j i

/-- A mark is not passed over. -/
theorem IsCalm.le_of_isMark (h : IsCalm clips i j) {clip : Clip} (hik : i < k)
    (hclip : clips[k]? = some clip) (hmark : clip.isMark = true) : j ≤ k := by
  by_contra hlt
  exact Bool.false_ne_true ((h k clip hik (by omega) hclip).symm.trans hmark)

theorem isCalm_succ_iff (hji : j < i) : IsCalm clips j (i + 1) ↔
    IsCalm clips j i ∧ ∀ clip, clips[i]? = some clip → clip.isMark = false := by
  constructor
  · exact fun h => ⟨fun k clip hjk hki => h k clip hjk (by omega),
      fun clip => h i clip hji (by omega)⟩
  · rintro ⟨hcalm, hlast⟩ k clip hjk hki hclip
    rcases Nat.lt_succ_iff_lt_or_eq.mp hki with hki | rfl
    · exact hcalm k clip hjk hki hclip
    · exact hlast clip hclip

/-- The next result is the next mark, if that is a result. -/
theorem nextResult?_eq_some_iff {rest : List Clip} :
    nextResult? rest = some r ↔ rest.find? Clip.isMark = some (.handlerResult r) := by
  induction rest with
  | nil => simp [nextResult?]
  | cons clip rest ih =>
    cases clip <;> simp_all [nextResult?, Clip.isMark, Clip.isBoundary, Clip.isResult]

theorem nextResult?_drop_eq_some_iff :
    nextResult? (clips.drop (i + 1)) = some r ↔ ∃ j, IsResultOf clips i j r := by
  rw [nextResult?_eq_some_iff, List.find?_eq_some_iff_getElem]
  constructor
  · rintro ⟨-, m, hm, hresult, hcalm⟩
    refine ⟨i + 1 + m, by omega, ?_, fun k clip hik hkj hclip => ?_⟩
    · rw [← List.getElem?_drop, ← hresult, List.getElem?_eq_getElem hm]
    · obtain ⟨hk, rfl⟩ := List.getElem?_eq_some_iff.mp hclip
      simpa [Nat.add_sub_cancel' hik] using hcalm (k - (i + 1)) (by omega)
  · rintro ⟨j, hij, hresult, hcalm⟩
    obtain ⟨hj, hresult⟩ := List.getElem?_eq_some_iff.mp hresult
    refine ⟨rfl, j - (i + 1), by rw [List.length_drop]; omega, ?_, fun k hk => ?_⟩
    · simpa [Nat.add_sub_cancel' hij] using hresult
    · simpa using hcalm (i + 1 + k) _ (by omega) (by omega) (List.getElem?_eq_getElem _)

/-! ### The predicate that waits at a place -/

/-- What a mark leaves waiting: itself, if it is a predicate. -/
def Clip.pending? (i : Nat) : Clip → Option Pending
  | predicate handler => some ⟨handler, i, [predicate handler]⟩
  | _ => none

/-- The predicate that waits for a result at a place, with the clips since. -/
def waitingAt (clips : List Clip) : Nat → Option Pending
  | 0 => none
  | i + 1 => clips[i]?.bind fun clip =>
    if clip.isMark then clip.pending? i
    else (waitingAt clips i).map fun p => { p with clips := p.clips ++ [clip] }

theorem waitingAt_succ {clip : Clip} (hclip : clips[i]? = some clip) :
    waitingAt clips (i + 1) =
      if clip.isMark then clip.pending? i
      else (waitingAt clips i).map fun p => { p with clips := p.clips ++ [clip] } := by
  rw [waitingAt, hclip, Option.bind_some]

/-- What waits at a place is what stands there since the last mark. -/
structure IsWaiting (clips : List Clip) (i : Nat) (p : Pending) (calm : List Clip) : Prop where
  clips_eq : p.clips = .predicate p.handler :: calm
  calm : ∀ clip ∈ calm, clip.isMark = false
  index_add : p.index + p.clips.length = i
  drop_eq : clips.drop p.index = p.clips ++ clips.drop i

theorem exists_isWaiting {p : Pending} (h : waitingAt clips i = some p) :
    ∃ calm, IsWaiting clips i p calm := by
  induction i generalizing p with
  | zero => cases h
  | succ i ih =>
    obtain ⟨clip, hclip, h⟩ := Option.bind_eq_some_iff.mp h
    have hdrop : clips.drop i = clip :: clips.drop (i + 1) := by
      obtain ⟨hi, rfl⟩ := List.getElem?_eq_some_iff.mp hclip
      exact List.drop_eq_getElem_cons hi
    split at h
    · -- of the marks only a predicate waits, and it has just come
      cases clip <;> cases h
      exact ⟨[], rfl, by simp, rfl, hdrop⟩
    · next hmark =>
      obtain ⟨q, hq, rfl⟩ := Option.map_eq_some_iff.mp h
      obtain ⟨calm, hwaiting⟩ := ih hq
      refine ⟨calm ++ [clip], by simp [hwaiting.clips_eq], ?_, ?_, ?_⟩
      · simpa [or_imp, forall_and, hmark] using hwaiting.calm
      · simp [← hwaiting.index_add, Nat.add_assoc]
      · simp [hwaiting.drop_eq, hdrop]

theorem isGuardOf_succ_iff {clip : Clip} (hclip : clips[i]? = some clip) :
    IsGuardOf clips j (i + 1) handler ↔
      j = i ∧ clip = .predicate handler ∨ IsGuardOf clips j i handler ∧ clip.isMark = false := by
  constructor
  · rintro ⟨hlt, hpredicate, hcalm⟩
    rcases Nat.lt_succ_iff_lt_or_eq.mp hlt with hlt | rfl
    · rw [isCalm_succ_iff hlt] at hcalm
      exact Or.inr ⟨⟨hlt, hpredicate, hcalm.1⟩, hcalm.2 clip hclip⟩
    · exact Or.inl ⟨rfl, Option.some.inj (hclip.symm.trans hpredicate)⟩
  · rintro (⟨rfl, rfl⟩ | ⟨⟨hlt, hpredicate, hcalm⟩, hmark⟩)
    · exact ⟨Nat.lt_succ_self j, hclip, fun k _ hjk hkj => by omega⟩
    · exact ⟨by omega, hpredicate, (isCalm_succ_iff hlt).mpr ⟨hcalm, by simp [hclip, hmark]⟩⟩

/-- **The predicate that waits at a place is the last mark before it.** -/
theorem exists_waitingAt_iff (hi : i ≤ clips.length) :
    (∃ p, waitingAt clips i = some p ∧ p.index = j ∧ p.handler = handler) ↔
      IsGuardOf clips j i handler := by
  induction i with
  | zero => exact ⟨by simp [waitingAt], fun h => absurd h.lt (by omega)⟩
  | succ i ih =>
    obtain ⟨clip, hclip⟩ : ∃ clip, clips[i]? = some clip := ⟨_, List.getElem?_eq_getElem hi⟩
    rw [isGuardOf_succ_iff hclip, waitingAt_succ hclip]
    by_cases hmark : clip.isMark = true
    · rw [if_pos hmark]
      cases clip <;> simp [Clip.pending?, hmark, eq_comm]
    · have hnone : clip ≠ .predicate handler := by
        rintro rfl
        exact hmark rfl
      rw [if_neg hmark, ← ih (by omega)]
      simp [hnone, hmark]

/-! ### The group of a place -/

/-- The clips up to the first result, and the result. -/
def untilResult : List Clip → List Clip
  | [] => []
  | clip :: rest => if clip.isResult then [clip] else clip :: untilResult rest

/-- The group of the handler at a place, if there is one. -/
def groupAt? (clips : List Clip) (i : Nat) : Option HandlerGroup :=
  match clips[i]? with
  | some (.action handler) =>
    some
      { handler
        predicate := (waitingAt clips i).map Pending.handler
        result := nextResult? (clips.drop (i + 1))
        clips := ((waitingAt clips i).map Pending.clips).getD [] ++
          .action handler :: untilBoundary (clips.drop (i + 1))
        index := i }
  | some (.predicate handler) =>
    (nextResult? (clips.drop (i + 1))).map fun r =>
      { handler
        predicate := some handler
        result := some r
        clips := .predicate handler :: untilResult (clips.drop (i + 1))
        index := i }
  | _ => none

theorem nextResult?_append {calm : List Clip} (h : ∀ clip ∈ calm, clip.isMark = false)
    (rest : List Clip) : nextResult? (calm ++ rest) = nextResult? rest := by
  induction calm with
  | nil => rfl
  | cons clip calm ih =>
    rw [List.forall_mem_cons] at h
    rw [← ih h.2]
    cases clip <;> simp_all [nextResult?, Clip.isMark, Clip.isBoundary, Clip.isResult]

theorem untilResult_append {calm : List Clip} (h : ∀ clip ∈ calm, clip.isMark = false)
    (rest : List Clip) : untilResult (calm ++ rest) = calm ++ untilResult rest := by
  induction calm with
  | nil => rfl
  | cons clip calm ih =>
    rw [List.forall_mem_cons, Clip.isMark, Bool.or_eq_false_iff] at h
    simp [untilResult, h.1.2, ih h.2]

/-- The group of a predicate that waits is told by the clips that come. -/
theorem groupAt?_of_waitingAt {p : Pending} (h : waitingAt clips i = some p) :
    groupAt? clips p.index = (nextResult? (clips.drop i)).map fun r =>
      { handler := p.handler
        predicate := some p.handler
        result := some r
        clips := p.clips ++ untilResult (clips.drop i)
        index := p.index } := by
  obtain ⟨calm, hwaiting⟩ := exists_isWaiting h
  have hdrop := hwaiting.drop_eq
  rw [hwaiting.clips_eq, List.cons_append] at hdrop
  have hclip : clips[p.index]? = some (.predicate p.handler) := by
    rw [← List.head?_drop, hdrop, List.head?_cons]
  have hrest : clips.drop (p.index + 1) = calm ++ clips.drop i := by
    rw [← List.tail_drop, hdrop, List.tail_cons]
  simp only [groupAt?, hclip, hrest, nextResult?_append hwaiting.calm,
    untilResult_append hwaiting.calm, hwaiting.clips_eq, List.cons_append]

theorem bind_waitingAt (clips : List Clip) (i : Nat) :
    ((waitingAt clips i).bind fun p => groupAt? clips p.index) =
      (waitingAt clips i).bind fun p => (nextResult? (clips.drop i)).map fun r =>
        { handler := p.handler
          predicate := some p.handler
          result := some r
          clips := p.clips ++ untilResult (clips.drop i)
          index := p.index } := by
  cases hp : waitingAt clips i with
  | none => rfl
  | some p => rw [Option.bind_some, Option.bind_some, groupAt?_of_waitingAt hp]

/-- The groups from a place on are those of the places from there on, behind that of the predicate
that waits. -/
theorem groupsFrom_eq {rest : List Clip} (h : clips.drop i = rest) :
    groupsFrom i (waitingAt clips i) rest =
      ((waitingAt clips i).bind fun p => groupAt? clips p.index).toList ++
        (List.range' i rest.length).filterMap (groupAt? clips) := by
  rw [bind_waitingAt, h]
  induction rest generalizing i with
  | nil => cases waitingAt clips i <;> rfl
  | cons clip rest ih =>
    have hclip : clips[i]? = some clip := by rw [← List.head?_drop, h, List.head?_cons]
    have hrest : clips.drop (i + 1) = rest := by rw [← List.tail_drop, h, List.tail_cons]
    have ih := ih hrest
    rw [waitingAt_succ hclip] at ih
    rw [List.length_cons, List.range'_succ, List.filterMap_cons, groupAt?, hclip, hrest]
    cases clip with
    | predicate handler =>
      -- a predicate that waited is forgotten, the new one waits
      have hstep : groupsFrom i (waitingAt clips i) (.predicate handler :: rest) =
          groupsFrom (i + 1) (some ⟨handler, i, [.predicate handler]⟩) rest := rfl
      have hforgotten : nextResult? (.predicate handler :: rest) = none := rfl
      rw [hstep]
      refine ih.trans ?_
      rw [hforgotten]
      cases nextResult? rest <;> cases waitingAt clips i <;> rfl
    | action handler =>
      have hstep : groupsFrom i (waitingAt clips i) (.action handler :: rest) =
          { handler
            predicate := (waitingAt clips i).map Pending.handler
            result := nextResult? rest
            clips := ((waitingAt clips i).map Pending.clips).getD [] ++
              .action handler :: untilBoundary rest
            index := i } :: groupsFrom (i + 1) none rest := rfl
      rw [hstep]
      have ih : groupsFrom (i + 1) none rest = _ := ih
      rw [ih]
      simp [Clip.isMark, Clip.isBoundary, Clip.pending?, nextResult?]
    | handlerResult r =>
      have ih : groupsFrom (i + 1) none rest = _ := ih
      cases hp : waitingAt clips i with
      | none =>
        simpa [groupsFrom, Clip.isMark, Clip.isBoundary, Clip.isResult, Clip.pending?] using ih
      | some p =>
        simpa [groupsFrom, Clip.isMark, Clip.isBoundary, Clip.isResult, Clip.pending?,
          nextResult?, untilResult] using ih
    | _ =>
      rw [if_neg (by simp [Clip.isMark, Clip.isBoundary, Clip.isResult])] at ih
      simp only [groupsFrom, ih]
      cases waitingAt clips i <;> simp [untilResult, nextResult?, Clip.isResult, Clip.isBoundary]

/-- **The groups of a log are those of its places.** -/
theorem handlerGroups_eq_filterMap (clips : List Clip) :
    handlerGroups clips = (List.range clips.length).filterMap (groupAt? clips) := by
  rw [List.range_eq_range']
  exact groupsFrom_eq (List.drop_zero (l := clips))

theorem index_of_groupAt? {g : HandlerGroup} (h : groupAt? clips i = some g) : g.index = i := by
  unfold groupAt? at h
  split at h
  · exact Option.some.inj h ▸ rfl
  · obtain ⟨r, -, rfl⟩ := Option.map_eq_some_iff.mp h
    rfl
  · cases h

theorem mem_handlerGroups_iff {g : HandlerGroup} :
    g ∈ handlerGroups clips ↔ groupAt? clips g.index = some g := by
  rw [handlerGroups_eq_filterMap, List.mem_filterMap]
  constructor
  · rintro ⟨i, -, h⟩
    rwa [index_of_groupAt? h]
  · intro h
    refine ⟨g.index, List.mem_range.mpr ?_, h⟩
    by_contra hlength
    rw [groupAt?, List.getElem?_eq_none (by omega)] at h
    cases h

/-! ### Pieces of the log -/

/-- Some clips are a piece of a log around the handler at a place: they stand in it from a place
on, and end before the next handler. -/
structure IsPiece (clips : List Clip) (start i : Nat) (piece : List Clip) : Prop where
  start_le : start ≤ i
  lt : i < start + piece.length
  isPrefix : piece <+: clips.drop start
  le : ∀ k clip, i < k → clips[k]? = some clip → clip.isBoundary = true →
    start + piece.length ≤ k

theorem IsPiece.of_append {start : Nat} {lead tail : List Clip} {clip : Clip}
    (hlead : start + lead.length = i) (hdrop : clips.drop start = lead ++ clips.drop i)
    (hclip : clips[i]? = some clip) (htail : tail <+: clips.drop (i + 1))
    (hcalm : ∀ c ∈ tail, c.isBoundary = false) :
    IsPiece clips start i (lead ++ clip :: tail) where
  start_le := by omega
  lt := by simp; omega
  isPrefix := by
    obtain ⟨hi, rfl⟩ := List.getElem?_eq_some_iff.mp hclip
    rw [hdrop, List.drop_eq_getElem_cons hi]
    exact (List.prefix_append_right_inj lead).mpr (List.cons_prefix_cons.mpr ⟨rfl, htail⟩)
  le k c hik hc hboundary := by
    -- a handler at an earlier place would be among the clips behind this one
    by_contra hlt
    rw [List.length_append, List.length_cons] at hlt
    have hget : tail[k - (i + 1)]? = some c := by
      obtain ⟨more, hmore⟩ := htail
      have hplace : (tail ++ more)[k - (i + 1)]? = tail[k - (i + 1)]? :=
        List.getElem?_append_left (by omega)
      rw [← hplace, hmore, List.getElem?_drop, Nat.add_sub_cancel' hik, hc]
    exact Bool.false_ne_true ((hcalm c (List.mem_of_getElem? hget)).symm.trans hboundary)

theorem isPrefix_untilResult (rest : List Clip) : untilResult rest <+: rest := by
  induction rest with
  | nil => exact List.nil_prefix
  | cons clip rest ih =>
    unfold untilResult
    split
    · exact ⟨rest, rfl⟩
    · exact List.cons_prefix_cons.mpr ⟨rfl, ih⟩

theorem isBoundary_of_mem_untilResult {rest : List Clip} (h : nextResult? rest = some r) :
    ∀ clip ∈ untilResult rest, clip.isBoundary = false := by
  induction rest with
  | nil => cases h
  | cons clip rest ih =>
    cases clip <;> simp_all [nextResult?, untilResult, Clip.isBoundary, Clip.isResult]

theorem isBoundary_of_mem_untilBoundary {rest : List Clip} :
    ∀ clip ∈ untilBoundary rest, clip.isBoundary = false := by
  intro clip hclip
  simpa using List.all_eq_true.mp List.all_takeWhile clip hclip

/-- Where the clips of a handler start: with its guard, if it is an action that has one. -/
def startAt (clips : List Clip) (i : Nat) : Nat :=
  match clips[i]? with
  | some (.action _) => ((waitingAt clips i).map Pending.index).getD i
  | _ => i

/-- The clips of a group are a piece of the log. -/
theorem isPiece_of_groupAt? {g : HandlerGroup} (h : groupAt? clips i = some g) :
    IsPiece clips (startAt clips i) i g.clips := by
  unfold groupAt? at h
  split at h
  · next handler hclip =>
    obtain rfl := Option.some.inj h
    simp only [startAt, hclip]
    cases hp : waitingAt clips i with
    | none =>
      exact .of_append rfl rfl hclip (List.takeWhile_prefix _) isBoundary_of_mem_untilBoundary
    | some p =>
      obtain ⟨calm, hwaiting⟩ := exists_isWaiting hp
      exact .of_append hwaiting.index_add hwaiting.drop_eq hclip (List.takeWhile_prefix _)
        isBoundary_of_mem_untilBoundary
  · next handler hclip =>
    obtain ⟨r, hr, rfl⟩ := Option.map_eq_some_iff.mp h
    simp only [startAt, hclip]
    have hlead : clips.drop i = [] ++ clips.drop i := rfl
    exact .of_append rfl hlead hclip (isPrefix_untilResult _) (isBoundary_of_mem_untilResult hr)
  · cases h

/-! ### All groups -/

/-- A handler runs at a place: there is an action, or a predicate with a result. -/
def RunsAt (clips : List Clip) (i : Nat) (handler : String) : Prop :=
  clips[i]? = some (.action handler) ∨
    clips[i]? = some (.predicate handler) ∧ ∃ r j, IsResultOf clips i j r

theorem RunsAt.exists_isBoundary (h : RunsAt clips i handler) :
    ∃ clip, clips[i]? = some clip ∧ clip.isBoundary = true := by
  rcases h with h | ⟨h, -⟩ <;> exact ⟨_, h, rfl⟩

theorem RunsAt.exists_isMark (h : RunsAt clips i handler) :
    ∃ clip, clips[i]? = some clip ∧ clip.isMark = true := by
  obtain ⟨clip, hclip, hboundary⟩ := h.exists_isBoundary
  exact ⟨clip, hclip, by rw [Clip.isMark, hboundary, Bool.true_or]⟩

/-- What a group says of its handler. -/
theorem groupAt?_cases {g : HandlerGroup} (h : groupAt? clips i = some g) :
    g.result = nextResult? (clips.drop (i + 1)) ∧
      (clips[i]? = some (.action g.handler) ∧
          g.predicate = (waitingAt clips i).map Pending.handler ∨
        clips[i]? = some (.predicate g.handler) ∧ g.predicate = some g.handler ∧
          ∃ r, nextResult? (clips.drop (i + 1)) = some r) := by
  unfold groupAt? at h
  split at h
  · next handler hclip =>
    obtain rfl := Option.some.inj h
    exact ⟨rfl, Or.inl ⟨hclip, rfl⟩⟩
  · next handler hclip =>
    obtain ⟨r, hr, rfl⟩ := Option.map_eq_some_iff.mp h
    exact ⟨hr.symm, Or.inr ⟨hclip, rfl, r, hr⟩⟩
  · cases h

theorem exists_groupAt?_iff :
    (∃ g, groupAt? clips i = some g ∧ g.handler = handler) ↔ RunsAt clips i handler := by
  simp only [RunsAt, ← nextResult?_drop_eq_some_iff]
  constructor
  · rintro ⟨g, hg, rfl⟩
    rcases (groupAt?_cases hg).2 with ⟨haction, -⟩ | ⟨hpredicate, -, hresult⟩
    · exact Or.inl haction
    · exact Or.inr ⟨hpredicate, hresult⟩
  · rintro (haction | ⟨hpredicate, r, hr⟩)
    · simp [groupAt?, haction]
    · simp [groupAt?, hpredicate, hr]

/-- A result is that of one handler only. -/
theorem IsResultOf.eq {i' : Nat} {r' : HandlerResult} {handler' : String}
    (h : IsResultOf clips i j r) (h' : IsResultOf clips i' j r') (hi : RunsAt clips i handler)
    (hi' : RunsAt clips i' handler') : i = i' := by
  obtain ⟨clip, hclip, hmark⟩ := hi.exists_isMark
  obtain ⟨clip', hclip', hmark'⟩ := hi'.exists_isMark
  rcases Nat.lt_trichotomy i i' with hlt | heq | hlt
  · exact absurd h'.lt (by have := h.calm.le_of_isMark hlt hclip' hmark'; omega)
  · exact heq
  · exact absurd h.lt (by have := h'.calm.le_of_isMark hlt hclip hmark; omega)

/-- The guard of an action comes behind every handler that runs before the action. -/
theorem RunsAt.lt_of_isGuardOf (hi : RunsAt clips i handler) (hik : i < k) {action guard : String}
    (haction : clips[k]? = some (.action action)) (hguard : IsGuardOf clips j k guard) : i < j := by
  obtain ⟨clip, hclip, hmark⟩ := hi.exists_isMark
  rcases Nat.lt_trichotomy i j with hlt | rfl | hlt
  · exact hlt
  · -- what guards an action has no result of its own
    rcases hi with hi | ⟨-, r, m, hresult⟩
    · rw [hguard.predicate] at hi
      cases hi
    · rcases Nat.lt_trichotomy m k with hmk | rfl | hkm
      · have := hguard.calm.le_of_isMark hresult.lt hresult.result rfl
        omega
      · rw [hresult.result] at haction
        cases haction
      · have := hresult.calm.le_of_isMark hik haction rfl
        omega
  · have := hguard.calm.le_of_isMark hlt hclip hmark
    omega

theorem startAt_cases (hi : i < clips.length) :
    startAt clips i = i ∨ ∃ action guard, clips[i]? = some (.action action) ∧
      IsGuardOf clips (startAt clips i) i guard := by
  unfold startAt
  split
  · next action hclip =>
    cases hp : waitingAt clips i with
    | none => exact Or.inl rfl
    | some p =>
      exact Or.inr ⟨action, p.handler, hclip,
        (exists_waitingAt_iff (Nat.le_of_lt hi)).mp ⟨p, hp, rfl, rfl⟩⟩
  · exact Or.inl rfl

/-- The groups are those of the handlers of a log, in order, each with the result and the guard
next to it and with a piece of the log of its own. -/
structure IsGrouping (clips : List Clip) (groups : List HandlerGroup) : Prop where
  ascends : groups.Pairwise fun g h => g.index < h.index
  /-- Every action has a group, every predicate with a result has one, and nothing else has. -/
  exists_iff : ∀ i handler,
    (∃ g ∈ groups, g.index = i ∧ g.handler = handler) ↔ RunsAt clips i handler
  result_iff : ∀ g ∈ groups, ∀ r, g.result = some r ↔ ∃ j, IsResultOf clips g.index j r
  /-- A result is that of one handler only. -/
  result_once : ∀ g ∈ groups, ∀ h ∈ groups, ∀ j r s,
    IsResultOf clips g.index j r → IsResultOf clips h.index j s → g = h
  guard_iff : ∀ g ∈ groups, clips[g.index]? = some (.action g.handler) →
    ∀ handler, g.predicate = some handler ↔ ∃ j, IsGuardOf clips j g.index handler
  /-- A predicate with a result guards itself. -/
  own_guard : ∀ g ∈ groups, clips[g.index]? = some (.predicate g.handler) →
    g.predicate = some g.handler
  /-- The clips of a group are a piece of the log around its handler, that ends before the piece of
  the next group starts. -/
  pieces : ∃ start : HandlerGroup → Nat,
    (∀ g ∈ groups, IsPiece clips (start g) g.index g.clips) ∧
    groups.Pairwise fun g h => start g + g.clips.length ≤ start h

theorem pairwise_handlerGroups (clips : List Clip) :
    (handlerGroups clips).Pairwise fun g h => g.index < h.index := by
  rw [handlerGroups_eq_filterMap, List.pairwise_filterMap]
  refine List.pairwise_lt_range.imp fun {i j} hij g hg h hh => ?_
  rwa [index_of_groupAt? hg, index_of_groupAt? hh]

theorem runsAt_of_mem {g : HandlerGroup} (hg : g ∈ handlerGroups clips) :
    RunsAt clips g.index g.handler :=
  exists_groupAt?_iff.mp ⟨g, mem_handlerGroups_iff.mp hg, rfl⟩

/-- The piece of a handler ends before that of a later one starts. -/
theorem IsPiece.le_startAt {piece : List Clip} {start : Nat} {action : String}
    (h : IsPiece clips start i piece) (hi : RunsAt clips i handler) (hk : RunsAt clips k action)
    (hik : i < k) : start + piece.length ≤ startAt clips k := by
  obtain ⟨clip, hclip, hboundary⟩ := hk.exists_isBoundary
  rcases startAt_cases (List.getElem?_eq_some_iff.mp hclip).1 with heq | ⟨_, guard, haction, hguard⟩
  · rw [heq]
    exact h.le k clip hik hclip hboundary
  · exact h.le _ _ (hi.lt_of_isGuardOf hik haction hguard) hguard.predicate rfl

/-- **Every handler of a log has one group**, with the result and the guard next to it and a piece
of the log of its own. -/
theorem isGrouping_handlerGroups (clips : List Clip) : IsGrouping clips (handlerGroups clips) where
  ascends := pairwise_handlerGroups clips
  exists_iff i handler := by
    rw [← exists_groupAt?_iff]
    constructor
    · rintro ⟨g, hg, rfl, hhandler⟩
      exact ⟨g, mem_handlerGroups_iff.mp hg, hhandler⟩
    · rintro ⟨g, hg, hhandler⟩
      have hindex := index_of_groupAt? hg
      exact ⟨g, mem_handlerGroups_iff.mpr (hindex ▸ hg), hindex, hhandler⟩
  result_iff g hg r := by
    rw [(groupAt?_cases (mem_handlerGroups_iff.mp hg)).1, nextResult?_drop_eq_some_iff]
  result_once g hg h hh j r s hr hs := by
    have hindex := hr.eq hs (runsAt_of_mem hg) (runsAt_of_mem hh)
    have hg := mem_handlerGroups_iff.mp hg
    rw [hindex, mem_handlerGroups_iff.mp hh] at hg
    exact (Option.some.inj hg).symm
  guard_iff g hg haction handler := by
    have hlength := (List.getElem?_eq_some_iff.mp haction).1
    rcases (groupAt?_cases (mem_handlerGroups_iff.mp hg)).2 with ⟨-, hguard⟩ | ⟨hpredicate, -⟩
    · simp only [hguard, Option.map_eq_some_iff, ← exists_waitingAt_iff (Nat.le_of_lt hlength)]
      simp
    · rw [haction] at hpredicate
      cases hpredicate
  own_guard g hg hpredicate := by
    rcases (groupAt?_cases (mem_handlerGroups_iff.mp hg)).2 with ⟨haction, -⟩ | ⟨-, hown, -⟩
    · rw [hpredicate] at haction
      cases haction
    · exact hown
  pieces := by
    have hpiece : ∀ g ∈ handlerGroups clips,
        IsPiece clips (startAt clips g.index) g.index g.clips :=
      fun g hg => isPiece_of_groupAt? (mem_handlerGroups_iff.mp hg)
    refine ⟨fun g => startAt clips g.index, hpiece, ?_⟩
    refine (pairwise_handlerGroups clips).imp_of_mem fun {g h} hg hh hlt => ?_
    exact (hpiece g hg).le_startAt (runsAt_of_mem hg) (runsAt_of_mem hh) hlt

end TrustFramework
