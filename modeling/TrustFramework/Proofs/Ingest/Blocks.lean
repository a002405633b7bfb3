import TrustFramework.Proofs.Ingest.Stitching

/-!
# Every row in one entry

Stitching cuts the rows of an export, in the order of their moments, into blocks, and makes an
entry of each: it has the identifiers and the pieces of all rows of its block, and everything else
of the first.  So no row is lost, none comes twice and none changes its place, whether its piece is
a payload by itself, begins one, goes on with it, ends it, or is cut off where another begins.

A row without a time counts as one of the first moment of the calendar.  It stands in front of all
that are later, but keeps its place behind a row of that very moment.

## Main definitions

* `Entry.IsMadeOf` — an entry is made of a block of rows.

## Main results

* `IsCutInto.of_rows` — **the entries of rows are made of blocks of them.**
* `rows_of_entries` — **stitching keeps all rows.**
* `rows_without_time_behind` — a row without a time that does not come first.
-/

namespace TrustFramework

/-! ### Moments -/

theorem Row.instant_of_isEmpty {r : Row} (h : r.timestamp.isEmpty = true) :
    r.instant = Timestamp.start.instant := by
  rw [instant, moment, if_pos h]

/-- Rows whose moments can be read are sorted by them. -/
theorem sortRows_eq_mergeSort {rows : List Row} (h : ∀ r ∈ rows, r.IsTimed) :
    sortRows rows = .ok (rows.mergeSort fun a b => a.instant ≤ b.instant) := by
  have htimed : rows.mapM (fun r => do
      let moment ← r.moment
      pure (moment, r)) = .ok (rows.map fun r => (r.instant, r)) := by
    refine mapM_eq_ok fun r hr => ?_
    rw [show r.moment = .ok r.instant from h r hr]
    rfl
  rw [sortRows, htimed]
  have hpairs : (rows.map fun r => (r.instant, r)).mergeSort (fun a b => a.1 ≤ b.1) =
      (rows.mergeSort fun a b => a.instant ≤ b.instant).map fun r => (r.instant, r) :=
    (List.map_mergeSort (f := fun r : Row => (r.instant, r)) fun _ _ _ _ => rfl).symm
  show Except.ok _ = _
  rw [hpairs, List.map_map]
  simp [Function.comp_def]

theorem stitch_eq_stitchFrom_mergeSort {rows : List Row} (h : ∀ r ∈ rows, r.IsTimed) :
    stitch rows = .ok (stitchFrom none (rows.mergeSort fun a b => a.instant ≤ b.instant)) := by
  rw [stitch, sortRows_eq_mergeSort h]
  rfl

/-! ### Blocks -/

/-- An entry is made of a block of rows: it has the identifiers and the pieces of all of them, and
everything else of the first. -/
structure Entry.IsMadeOf (e : Entry) (block : List Row) : Prop where
  ids : e.ids = block.map Row.id
  message : e.message = String.join (block.map Row.part)
  first : ∃ r ∈ block.head?, e.timestamp = r.timestamp ∧ e.roleInstance = r.roleInstance ∧
    e.dimensions = r.dimensions

namespace Entry.IsMadeOf

theorem ofRow (r : Row) : (Entry.ofRow r).IsMadeOf [r] where
  ids := rfl
  message := by simp
  first := ⟨r, rfl, rfl, rfl, rfl⟩

theorem continued {e : Entry} {block : List Row} (h : e.IsMadeOf block) (r : Row) :
    (e.continued r).IsMadeOf (block ++ [r]) where
  ids := by rw [continued_ids, h.ids, List.map_append]; rfl
  message := by rw [continued_message, h.message]; simp
  first := by
    obtain ⟨first, hfirst, hrest⟩ := h.first
    refine ⟨first, ?_, hrest⟩
    rw [List.head?_append, hfirst]
    rfl

end Entry.IsMadeOf

/-- Rows are cut into blocks of which entries are made. -/
def IsCutInto (rows : List Row) (entries : List Entry) : Prop :=
  ∃ blocks : List (List Row), blocks.flatten = rows ∧ List.Forall₂ Entry.IsMadeOf entries blocks

namespace IsCutInto

theorem nil : IsCutInto [] [] := ⟨[], rfl, .nil⟩

theorem cons {e : Entry} {block rows : List Row} {entries : List Entry} (he : e.IsMadeOf block)
    (h : IsCutInto rows entries) : IsCutInto (block ++ rows) (e :: entries) := by
  obtain ⟨blocks, rfl, hblocks⟩ := h
  exact ⟨block :: blocks, rfl, .cons he hblocks⟩

theorem flatMap_ids {rows : List Row} {entries : List Entry} (h : IsCutInto rows entries) :
    entries.flatMap Entry.ids = rows.map Row.id := by
  obtain ⟨blocks, rfl, hblocks⟩ := h
  induction hblocks with
  | nil => rfl
  | cons he _ ih => rw [List.flatMap_cons, he.ids, ih, List.flatten_cons, List.map_append]

theorem join_messages {rows : List Row} {entries : List Entry} (h : IsCutInto rows entries) :
    String.join (entries.map Entry.message) = String.join (rows.map Row.part) := by
  obtain ⟨blocks, rfl, hblocks⟩ := h
  induction hblocks with
  | nil => rfl
  | cons he _ ih =>
    rw [List.map_cons, String.join_cons, he.message, ih, List.flatten_cons, List.map_append,
      String.join_append]

mutual
/-- **The entries of rows are made of blocks of them.** -/
theorem of_rows : ∀ rows : List Row, IsCutInto rows (stitchFrom none rows)
  | [] => nil
  | r :: rows => by
    rw [stitchFrom_none_cons]
    split
    · next hopens =>
      have hmessage := Entry.ofRow_message_ne_empty (Bool.and_eq_true_iff.mp hopens).1
      exact of_open (.ofRow r) hmessage rows
    · exact cons (.ofRow r) (of_rows rows)

/-- An entry that is not complete is the beginning of the first block. -/
theorem of_open {e : Entry} {block : List Row} (he : e.IsMadeOf block)
    (hmessage : e.message ≠ "") : ∀ rows : List Row,
      IsCutInto (block ++ rows) (stitchFrom (some e) rows)
  | [] => by
    rw [stitchFrom_some_nil hmessage]
    exact cons he nil
  | r :: rows => by
    have hnext : block ++ r :: rows = (block ++ [r]) ++ rows := by simp
    rw [stitchFrom_some_cons]
    split
    · next hopens =>
      -- the entry is cut off, and the row begins another one
      refine cons he ?_
      split
      · exact cons (.ofRow r) (of_rows rows)
      · exact of_open (.ofRow r) (Entry.ofRow_message_ne_empty hopens) rows
    · rw [hnext]
      split
      · exact cons (he.continued r) (of_rows rows)
      · exact of_open (he.continued r) (Entry.continued_message_ne_empty hmessage r) rows
end

end IsCutInto

/-- **Stitching keeps all rows.**  Rows whose moments can be read, or that have no time, are put in
the order of their moments, those of one moment as they stand, where a row without a time counts as
one of the first moment of the calendar: such rows come first if all others are later.  The entries
are made of blocks of the rows in this order, each of the rows in one of them, so that the
identifiers and the messages of the entries, one behind the other, are those of the rows. -/
theorem rows_of_entries {rows : List Row} (h : ∀ r ∈ rows, r.IsTimed) :
    ∃ entries sorted, stitch rows = .ok entries ∧ IsSortedBy Row.instant rows sorted ∧
      ((∀ r ∈ rows, r.timestamp ≠ "" → Timestamp.start.instant < r.instant) →
        ∃ later, sorted = (rows.filter fun r => r.timestamp.isEmpty) ++ later) ∧
      entries.flatMap Entry.ids = sorted.map Row.id ∧
      String.join (entries.map Entry.message) = String.join (sorted.map Row.part) ∧
      ∃ blocks : List (List Row), blocks.flatten = sorted ∧
        List.Forall₂ Entry.IsMadeOf entries blocks := by
  have hstitch := stitch_eq_stitchFrom_mergeSort h
  have hsorted := isSortedBy_mergeSort Row.instant rows
  have hcut := IsCutInto.of_rows (rows.mergeSort fun a b => a.instant ≤ b.instant)
  refine ⟨_, _, hstitch, hsorted, fun hlater => ?_, hcut.flatMap_ids, hcut.join_messages, hcut⟩
  have hempty (r : Row) (hr : r ∈ rows) :
      (r.instant == Timestamp.start.instant) = r.timestamp.isEmpty := by
    cases htime : r.timestamp.isEmpty with
    | true => rw [Row.instant_of_isEmpty htime, beq_self_eq_true]
    | false =>
      have := hlater r hr (by simpa using htime)
      exact beq_false_of_ne (Int.ne_of_gt this)
  have hleast (r : Row) (hr : r ∈ rows) : Timestamp.start.instant ≤ r.instant := by
    cases htime : r.timestamp.isEmpty with
    | true => exact Int.le_of_eq (Row.instant_of_isEmpty htime).symm
    | false => exact Int.le_of_lt (hlater r hr (by simpa using htime))
  obtain ⟨later, heq, -⟩ := hsorted.eq_filter_append hleast
  exact ⟨later, by rw [heq, List.filter_congr hempty]⟩

/-- A payload in two rows that stand in the wrong order, and a note without a time, which comes
first. -/
theorem rows_of_note_and_payload :
    let rows := cutInFrontOfText.reverse ++ [{ id := "n", message := "note" }]
    (∀ r ∈ rows, r.IsTimed) ∧ ∃ entries, stitch rows = .ok entries ∧
      (entries.flatMap Entry.ids).head? = some "n" := by
  intro rows
  have htimed : ∀ r ∈ rows, r.IsTimed := by decide
  have hlater : ∀ r ∈ rows, r.timestamp ≠ "" → Timestamp.start.instant < r.instant := by
    decide
  have hnote : ((rows.filter fun r => r.timestamp.isEmpty).map Row.id).head? = some "n" := by
    decide
  obtain ⟨entries, sorted, hentries, -, hfirst, hids, -⟩ := rows_of_entries htimed
  obtain ⟨later, hsorted⟩ := hfirst hlater
  refine ⟨htimed, entries, hentries, ?_⟩
  rw [hids, hsorted, List.map_append, List.head?_append, hnote]
  rfl

/-- A row of the first moment of the calendar, and one without a time behind it. -/
def atTheStart : List Row :=
  [{ id := "a", timestamp := "0001-01-01T00:00:00Z", message := "[1," },
    { id := "b", message := "2]" }]

/-- **A row without a time that does not come first**: it keeps its place behind a row of the first
moment of the calendar, and goes on with its payload. -/
theorem rows_without_time_behind :
    ¬ ∀ rows : List Row, (∀ r ∈ rows, r.IsTimed) → ∃ entries later,
      stitch rows = .ok entries ∧
      entries.flatMap Entry.ids =
        ((rows.filter fun r => r.timestamp.isEmpty) ++ later).map Row.id := by
  intro h
  have htimed : ∀ r ∈ atTheStart, r.IsTimed := by decide
  have hascends : atTheStart.Pairwise fun a b => a.instant ≤ b.instant := by decide
  have hstitched : (stitchFrom none atTheStart).flatMap Entry.ids = ["a", "b"] := by decide
  obtain ⟨entries, later, hentries, hids⟩ := h atTheStart htimed
  rw [stitch_eq_stitchFrom_mergeSort htimed, mergeSort_eq_self Row.instant hascends] at hentries
  rw [← Except.ok.inj hentries, hstitched] at hids
  exact absurd (congrArg List.head? hids) (by simp [atTheStart])

end TrustFramework
