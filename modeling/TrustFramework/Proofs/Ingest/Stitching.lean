import Mathlib.Data.List.Pairwise
import TrustFramework.Ingest.Stitching
import TrustFramework.Proofs.Fallible
import TrustFramework.Proofs.Sorting

/-!
# Stitching a payload together again

A payload that was cut into pieces comes back as one entry exactly when none of the
cuts hides its nature: no piece behind the first looks like the beginning of a payload,
and none before the last like its end.  Rows are told apart by nothing else, so that a
piece that begins with the bracket of an inner list is taken for a payload of its own.

## Main definitions

* `Row.instant`, `Row.IsTimed` — the moment of a row.
* `Chronological` — rows of ascending moments.

## Main results

* `sortRows_eq_ok` — sorting finds the chronological order again.
* `foldl_continued` — an entry continued by many rows.
* `stitchFrom_some_eq_singleton_iff` — when a payload that is open stays the only one.
* `stitch_pieces_iff` — **when the pieces of a payload are stitched together again.**
* `stitch_inner_list` — a payload cut in front of an inner list, which is not.
-/

namespace TrustFramework

/-! ### The order of rows -/

/-- The moment of a row, the first one of all if it cannot be read. -/
def Row.instant (r : Row) : Int :=
  match r.moment with
  | .ok moment => moment
  | .error _ => 0

/-- The moment of a row can be read. -/
def Row.IsTimed (r : Row) : Prop := r.moment = .ok r.instant

instance (r : Row) : Decidable r.IsTimed :=
  match h : r.moment with
  | .ok _ => isTrue (by simp [Row.IsTimed, Row.instant, h])
  | .error _ => isFalse (by simp [Row.IsTimed, h])

/-- Rows of ascending moments, no two of them the same. -/
def Chronological (rows : List Row) : Prop :=
  (∀ r ∈ rows, r.IsTimed) ∧ rows.Pairwise fun a b => a.instant < b.instant

theorem Chronological.filter {rows : List Row} (h : Chronological rows) (p : Row → Bool) :
    Chronological (rows.filter p) :=
  ⟨fun r hr => h.1 r (List.mem_filter.mp hr).1, h.2.filter p⟩

theorem Chronological.eq_of_instant_eq {rows : List Row} (h : Chronological rows) {a b : Row}
    (ha : a ∈ rows) (hb : b ∈ rows) (heq : a.instant = b.instant) : a = b := by
  have hdistinct : rows.Pairwise fun a b => a.instant ≠ b.instant :=
    h.2.imp fun hlt => Int.ne_of_lt hlt
  have : Std.Symm fun a b : Row => a.instant ≠ b.instant := ⟨fun _ _ hne => hne.symm⟩
  by_contra hne
  exact hdistinct.forall ha hb hne heq

/-- **Sorting finds the chronological order again**, in whatever order rows stand. -/
theorem sortRows_eq_ok {rows table : List Row} (hrows : Chronological rows)
    (htable : table.Perm rows) : sortRows table = .ok rows := by
  have htimed : table.mapM (fun r => do
      let moment ← r.moment
      pure (moment, r)) = .ok (table.map fun r => (r.instant, r)) := by
    refine mapM_eq_ok fun r hr => ?_
    rw [show r.moment = .ok r.instant from hrows.1 r (htable.mem_iff.mp hr)]
    rfl
  have hfound := pairwise_le_mergeSort Prod.fst (table.map fun r => (r.instant, r))
  have hgiven : (rows.map fun r => (r.instant, r)).Pairwise fun a b => a.1 ≤ b.1 :=
    List.pairwise_map.mpr (hrows.2.imp Int.le_of_lt)
  have hsorted : ((table.map fun r => (r.instant, r)).mergeSort fun a b => a.1 ≤ b.1) =
      rows.map fun r => (r.instant, r) := by
    refine List.Perm.eq_of_pairwise ?_ hfound hgiven
      ((List.mergeSort_perm _ _).trans (htable.map _))
    -- rows of one moment are one row
    intro a b ha hb hab hba
    obtain ⟨r, hr, rfl⟩ := List.mem_map.mp (List.mem_mergeSort.mp ha)
    obtain ⟨s, hs, rfl⟩ := List.mem_map.mp hb
    rw [hrows.eq_of_instant_eq (htable.mem_iff.mp hr) hs (Int.le_antisymm hab hba)]
  rw [sortRows, htimed]
  show Except.ok _ = _
  rw [hsorted, List.map_map]
  simp [Function.comp_def]

theorem stitch_eq_ok {rows table : List Row} (hrows : Chronological rows)
    (htable : table.Perm rows) : stitch table = .ok (stitchFrom none rows) := by
  rw [stitch, sortRows_eq_ok hrows htable]
  rfl

/-! ### Pieces -/

/-- Trimming keeps a first character that is not blank. -/
theorem head?_trimmed_cons {c : Char} (cs : List Char) (hc : Text.isBlank c = false) :
    (Text.trimmed (c :: cs)).head? = some c := by
  have hfront : (c :: cs).dropWhile Text.isBlank = c :: cs := by simp [hc]
  rw [Text.trimmed, hfront, List.reverse_cons, List.dropWhile_append]
  split
  · simp [hc]
  · simp

/-- A piece that begins with an opening bracket begins a payload. -/
theorem opensPayload_of_head? {part : String} (h : part.toList.head? = some '[') :
    opensPayload part = true := by
  obtain ⟨rest, hrest⟩ : ∃ rest, part.toList = '[' :: rest := by
    cases hpart : part.toList with
    | nil => simp [hpart] at h
    | cons c rest => exact ⟨rest, by simp_all⟩
  rw [opensPayload, hrest, head?_trimmed_cons rest (by decide)]
  rfl

/-- A piece that begins a payload is not empty. -/
theorem ne_empty_of_opensPayload {part : String} (h : opensPayload part = true) :
    part ≠ "" := by
  rintro rfl
  simp [opensPayload, Text.trimmed] at h

/-! ### Entries -/

namespace Entry

@[simp] theorem ofRow_ids (r : Row) : (ofRow r).ids = [r.id] := rfl

@[simp] theorem ofRow_message (r : Row) : (ofRow r).message = r.part := rfl

theorem ofRow_message_ne_empty {r : Row} (h : opensPayload r.part = true) :
    (ofRow r).message ≠ "" := by
  rw [ofRow_message]
  exact ne_empty_of_opensPayload h

@[simp] theorem continued_ids (e : Entry) (r : Row) : (e.continued r).ids = e.ids ++ [r.id] := rfl

@[simp] theorem continued_message (e : Entry) (r : Row) :
    (e.continued r).message = e.message ++ r.part := rfl

theorem continued_message_ne_empty {e : Entry} (he : e.message ≠ "") (r : Row) :
    (e.continued r).message ≠ "" := by
  simp [String.append_eq_empty_iff, he]

/-- An entry continued by many rows has their identifiers and pieces behind its own. -/
theorem foldl_continued (e : Entry) (rows : List Row) :
    rows.foldl continued e =
      { e with
        ids := e.ids ++ rows.map Row.id
        message := e.message ++ String.join (rows.map Row.part) } := by
  induction rows generalizing e with
  | nil => simp
  | cons r rows ih =>
    rw [List.foldl_cons, ih]
    simp [continued, String.append_assoc]

end Entry

/-! ### One payload -/

/-- A payload that is open becomes an entry at last. -/
theorem stitchFrom_some_ne_nil {e : Entry} (he : e.message ≠ "") (rows : List Row) :
    stitchFrom (some e) rows ≠ [] := by
  induction rows generalizing e with
  | nil => simp [stitchFrom_some_nil he]
  | cons r rows ih =>
    rw [stitchFrom_some_cons]
    split
    · simp
    · split
      · simp
      · exact ih (Entry.continued_message_ne_empty he r)

/-- Rows become entries. -/
theorem stitchFrom_none_ne_nil {rows : List Row} (h : rows ≠ []) : stitchFrom none rows ≠ [] := by
  cases rows with
  | nil => exact absurd rfl h
  | cons r rows =>
    rw [stitchFrom_none_cons]
    split
    · next hr =>
      simp only [Bool.and_eq_true] at hr
      exact stitchFrom_some_ne_nil (Entry.ofRow_message_ne_empty hr.1) rows
    · simp

/-- Rows that go on with a payload, none of them its end but the last, are taken into it. -/
theorem stitchFrom_some_of_continuations {e : Entry} (he : e.message ≠ "") {rows : List Row}
    (hopens : ∀ r ∈ rows, opensPayload r.part = false)
    (hcloses : ∀ r ∈ rows.dropLast, closesPayload r.part = false) :
    stitchFrom (some e) rows = [rows.foldl Entry.continued e] := by
  induction rows generalizing e with
  | nil => exact stitchFrom_some_nil he
  | cons r rows ih =>
    rw [stitchFrom_some_cons, hopens r List.mem_cons_self, if_neg Bool.false_ne_true,
      List.foldl_cons]
    cases rows with
    | nil =>
      rw [stitchFrom_some_nil (Entry.continued_message_ne_empty he r)]
      exact ite_self _
    | cons s rows =>
      rw [List.dropLast_cons_cons] at hcloses
      rw [hcloses r List.mem_cons_self, if_neg Bool.false_ne_true]
      exact ih (Entry.continued_message_ne_empty he r)
        (fun t ht => hopens t (List.mem_cons_of_mem _ ht))
        (fun t ht => hcloses t (List.mem_cons_of_mem _ ht))

/-- **When a payload that is open stays the only one**: no row begins another one, and
none but the last ends it. -/
theorem stitchFrom_some_eq_singleton_iff {e : Entry} (he : e.message ≠ "") {rows : List Row} :
    (∃ x, stitchFrom (some e) rows = [x]) ↔
      (∀ r ∈ rows, opensPayload r.part = false) ∧
        ∀ r ∈ rows.dropLast, closesPayload r.part = false := by
  constructor
  · intro h
    induction rows generalizing e with
    | nil => simp
    | cons r rows ih =>
      obtain ⟨x, hx⟩ := h
      rw [stitchFrom_some_cons] at hx
      cases hopens : opensPayload r.part with
      | true =>
        -- the payload stays as it is, and the row makes a second entry
        rw [hopens, if_pos rfl] at hx
        have hnil := (List.cons.inj hx).2
        split at hnil
        · exact absurd hnil (List.cons_ne_nil _ _)
        · exact absurd hnil (stitchFrom_some_ne_nil (Entry.ofRow_message_ne_empty hopens) rows)
      | false =>
        rw [hopens, if_neg Bool.false_ne_true] at hx
        cases hcloses : closesPayload r.part with
        | true =>
          -- the row ends the payload, so that nothing can follow it
          rw [hcloses, if_pos rfl] at hx
          have hnil : rows = [] := by
            by_contra hne
            exact stitchFrom_none_ne_nil hne (List.cons.inj hx).2
          subst hnil
          simp [hopens]
        | false =>
          rw [hcloses, if_neg Bool.false_ne_true] at hx
          obtain ⟨hrest, hlast⟩ := ih (Entry.continued_message_ne_empty he r) ⟨x, hx⟩
          refine ⟨List.forall_mem_cons.mpr ⟨hopens, hrest⟩, ?_⟩
          cases rows with
          | nil => simp
          | cons s rows =>
            rw [List.dropLast_cons_cons]
            exact List.forall_mem_cons.mpr ⟨hcloses, hlast⟩
  · rintro ⟨hopens, hcloses⟩
    exact ⟨_, stitchFrom_some_of_continuations he hopens hcloses⟩

/-- The first of the pieces of a payload begins it. -/
theorem opensPayload_of_join {r : Row} {rows : List Row} (hpart : r.part ≠ "")
    (h : (String.join ((r :: rows).map Row.part)).toList.head? = some '[') :
    opensPayload r.part = true := by
  apply opensPayload_of_head?
  simpa [hpart] using h

/-- **When the pieces of a payload are stitched together again.**  The pieces stand in rows
of ascending moments, and the rows in any order in a table.  They become one entry with
the payload and the identifiers of all rows exactly when no piece behind the first begins
a payload and none before the last ends one. -/
theorem stitch_pieces_iff {p : String} {rows table : List Row}
    (hopens : p.toList.head? = some '[') (hjoin : String.join (rows.map Row.part) = p)
    (hparts : ∀ r ∈ rows, r.part ≠ "") (hrows : Chronological rows)
    (htable : table.Perm rows) :
    (∃ e, stitch table = .ok [e] ∧ e.message = p ∧ e.ids = rows.map Row.id) ↔
      (∀ r ∈ rows.tail, opensPayload r.part = false) ∧
        ∀ r ∈ rows.dropLast, closesPayload r.part = false := by
  rw [stitch_eq_ok hrows htable]
  cases rows with
  | nil => simp [← hjoin] at hopens
  | cons first rest =>
    have hfirst : opensPayload first.part = true :=
      opensPayload_of_join (hparts first List.mem_cons_self) (hjoin ▸ hopens)
    have hmessage := Entry.ofRow_message_ne_empty hfirst
    rw [stitchFrom_none_cons, hfirst, Bool.true_and, List.tail_cons]
    cases rest with
    | nil =>
      cases closesPayload first.part <;>
        simpa [stitchFrom_some_nil hmessage, hparts first List.mem_cons_self] using hjoin
    | cons second rest =>
      have hends : (∀ r ∈ (first :: second :: rest).dropLast, closesPayload r.part = false) ↔
          closesPayload first.part = false ∧
            ∀ r ∈ (second :: rest).dropLast, closesPayload r.part = false := by
        rw [List.dropLast_cons_cons, List.forall_mem_cons]
      rw [hends, and_left_comm, ← stitchFrom_some_eq_singleton_iff hmessage]
      cases hcloses : closesPayload first.part with
      | true =>
        -- the first piece is an entry of its own, and the rest makes another
        have hrest : stitchFrom none (second :: rest) ≠ [] := stitchFrom_none_ne_nil (by simp)
        simp [hrest]
      | false =>
        simp only [Bool.not_false, if_true, true_and]
        constructor
        · rintro ⟨e, he, -, -⟩
          exact ⟨e, Except.ok.inj he⟩
        · intro h
          obtain ⟨hbegins, hends⟩ := (stitchFrom_some_eq_singleton_iff hmessage).mp h
          refine ⟨_, congrArg _ (stitchFrom_some_of_continuations hmessage hbegins hends), ?_, ?_⟩
          · rw [Entry.foldl_continued, ← hjoin]
            simp
          · rw [Entry.foldl_continued]
            simp

/-! ### Payloads at the limits -/

/-- A row with a piece of a payload, at a second of a minute. -/
def pieceAt (second id piece : String) : Row where
  id
  timestamp := "2024-01-15T10:30:" ++ second ++ "Z"
  message := piece

/-- A payload cut in front of the value of a field. -/
def cutInFrontOfText : List Row :=
  [pieceAt "00" "a" "[\x7b\"Kind\": \"Action\", \"Content\": ", pieceAt "01" "b" "\"A\"\x7d]"]

/-- A payload cut in front of an inner list. -/
def cutInFrontOfList : List Row :=
  [pieceAt "00" "a" "[\x7b\"Kind\": \"Other\", \"Content\": ", pieceAt "01" "b" "[1]\x7d]"]

theorem chronological_cut :
    Chronological cutInFrontOfText ∧ Chronological cutInFrontOfList := by
  unfold Chronological
  decide

/-- A payload whose rows stand in the wrong order is stitched together again. -/
theorem stitch_pieces_cutInFrontOfText :
    (String.join (cutInFrontOfText.map Row.part)).toList.head? = some '[' ∧
      (∀ r ∈ cutInFrontOfText, r.part ≠ "") ∧ Chronological cutInFrontOfText ∧
      cutInFrontOfText.reverse.Perm cutInFrontOfText ∧
      ∃ e, stitch cutInFrontOfText.reverse = .ok [e] ∧
        e.message = String.join (cutInFrontOfText.map Row.part) ∧ e.ids = ["a", "b"] := by
  have hopens : (String.join (cutInFrontOfText.map Row.part)).toList.head? = some '[' := by
    decide
  have hparts : ∀ r ∈ cutInFrontOfText, r.part ≠ "" := by decide
  have hrows := chronological_cut.1
  have htable := List.reverse_perm cutInFrontOfText
  exact ⟨hopens, hparts, hrows, htable,
    (stitch_pieces_iff hopens rfl hparts hrows htable).mpr (by decide)⟩

/-- **A payload that is not stitched together again**: the second piece begins with the
bracket of an inner list. -/
theorem stitch_inner_list :
    ¬ ∀ (p : String) (rows table : List Row), p.toList.head? = some '[' →
      p.toList.getLast? = some ']' → String.join (rows.map Row.part) = p →
      (∀ r ∈ rows, r.part ≠ "") → Chronological rows → table.Perm rows →
      ∃ e, stitch table = .ok [e] ∧ e.message = p ∧ e.ids = rows.map Row.id := by
  intro h
  obtain ⟨e, he, -, -⟩ := h _ cutInFrontOfList cutInFrontOfList (by decide)
    (by decide) rfl (by decide) chronological_cut.2 (List.Perm.refl _)
  rw [stitch_eq_ok chronological_cut.2 (List.Perm.refl _)] at he
  have hlength : (stitchFrom none cutInFrontOfList).length = 2 := by decide
  rw [Except.ok.inj he] at hlength
  exact absurd hlength (by simp)

end TrustFramework
