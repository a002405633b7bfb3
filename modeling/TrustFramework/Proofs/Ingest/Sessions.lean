import Mathlib.Data.List.Nodup
import TrustFramework.Ingest.LogRecord
import TrustFramework.Proofs.Ingest.Stitching

/-!
# Stitching the rows of several sessions

All rows of an export share the one payload that is open, whatever session they belong
to.  A session gets the records that it would get on its own exactly when no row that goes
on with a payload finds another one open than it should: a row of the session the one that
is open among the rows of the session alone, any other row none of the session.

## Main definitions

* `Row.isOf`, `Entry.isOf` — what belongs to a session.
* `openedBy?` — the row that began the payload that is open behind some rows.
* `IsUndisturbed` — no row of another session gets in the way.
* `completedBy`, `openAfter` — stitching, one row at a time.
* `Entry.IsBegunBy` — an entry and its first row.

## Main results

* `flatMap_ids_stitchFrom` — every row is in one entry, and entries keep the order.
* `exists_entry_of_continuation` — the entry that a row becomes a part of.
* `stitchFrom_filter_isOf` — **undisturbed sessions are stitched as on their own.**
* `isUndisturbed_of_ids` — and disturbed ones are not.
* `records_of_session_iff` — **when a session gets the records it would get on its own.**
* `records_of_cut_session` — a session that does not.
-/

namespace TrustFramework

/-! ### Sessions -/

/-- The row belongs to a session. -/
def Row.isOf (session : String) (r : Row) : Bool := r.dimensions.correlationId = session

/-- The entry belongs to a session. -/
def Entry.isOf (session : String) (e : Entry) : Bool := e.dimensions.correlationId = session

@[simp] theorem Entry.isOf_ofRow (session : String) (r : Row) :
    (Entry.ofRow r).isOf session = r.isOf session := rfl

@[simp] theorem Entry.isOf_continued (session : String) (e : Entry) (r : Row) :
    (e.continued r).isOf session = e.isOf session := rfl

/-- The row that began the payload that is open behind a row, given the one before it. -/
def noteRow (opener : Option Row) (r : Row) : Option Row :=
  if closesPayload r.part then none else if opensPayload r.part then some r else opener

/-- The row that began the payload that is open behind some rows. -/
def openedBy? (rows : List Row) : Option Row := rows.foldl noteRow none

theorem mem_of_foldl_noteRow {opener : Option Row} {rows : List Row} {r : Row}
    (h : rows.foldl noteRow opener = some r) : r ∈ rows ∨ opener = some r := by
  induction rows generalizing opener with
  | nil => exact Or.inr h
  | cons s rows ih =>
    rw [List.foldl_cons] at h
    rcases ih h with hr | hr
    · exact Or.inl (List.mem_cons_of_mem _ hr)
    · rw [noteRow] at hr
      split at hr
      · cases hr
      · split at hr
        · exact Or.inl (Option.some.inj hr ▸ List.mem_cons_self)
        · exact Or.inr hr

theorem mem_of_openedBy? {rows : List Row} {r : Row} (h : openedBy? rows = some r) : r ∈ rows := by
  rcases mem_of_foldl_noteRow h with hr | hr
  · exact hr
  · cases hr

/-- No row of another session gets in the way of a session: a row that goes on with a
payload finds the one open that is open without the other sessions, and a row of another
session none of the session. -/
def IsUndisturbed (session : String) (rows : List Row) : Prop :=
  ∀ before r after, rows = before ++ r :: after → opensPayload r.part = false →
    if r.isOf session then openedBy? before = openedBy? (before.filter (Row.isOf session))
    else ∀ opener ∈ openedBy? before, opener.isOf session = false

theorem isUndisturbed_iff {session : String} {rows : List Row} :
    IsUndisturbed session rows ↔
      ∀ i : Fin rows.length, opensPayload rows[i].part = false →
        if rows[i].isOf session then
          openedBy? (rows.take i) = openedBy? ((rows.take i).filter (Row.isOf session))
        else ∀ opener ∈ openedBy? (rows.take i), opener.isOf session = false := by
  constructor
  · intro h i hopens
    refine h (rows.take i) rows[i] (rows.drop (i + 1)) ?_ hopens
    rw [Fin.getElem_fin, List.getElem_cons_drop, List.take_append_drop]
  · rintro h before r after rfl hopens
    simpa using h ⟨before.length, by simp⟩ (by simpa using hopens)

instance (session : String) (rows : List Row) : Decidable (IsUndisturbed session rows) :=
  decidable_of_iff _ isUndisturbed_iff.symm

/-! ### One row at a time -/

/-- The entries that a row completes. -/
def completedBy (pending : Option Entry) (r : Row) : List Entry :=
  if opensPayload r.part then
    pending.toList ++ if closesPayload r.part then [Entry.ofRow r] else []
  else
    match pending with
    | none => [Entry.ofRow r]
    | some e => if closesPayload r.part then [e.continued r] else []

/-- The entry that is open behind a row. -/
def openAfter (pending : Option Entry) (r : Row) : Option Entry :=
  if closesPayload r.part then none
  else if opensPayload r.part then some (Entry.ofRow r)
  else pending.map fun e => e.continued r

/-- Stitching, one row at a time. -/
theorem stitchFrom_cons (pending : Option Entry) (r : Row) (rest : List Row) :
    stitchFrom pending (r :: rest) =
      completedBy pending r ++ stitchFrom (openAfter pending r) rest := by
  cases hopens : opensPayload r.part <;> cases hcloses : closesPayload r.part <;>
    cases pending <;>
      simp [stitchFrom_none_cons, stitchFrom_some_cons, completedBy, openAfter, hopens, hcloses]

/-- An entry has what its first row says. -/
structure Entry.IsBegunBy (e : Entry) (r : Row) : Prop where
  dimensions : e.dimensions = r.dimensions
  timestamp : e.timestamp = r.timestamp
  head : e.ids.head? = some r.id

theorem Entry.isBegunBy_ofRow (r : Row) : (Entry.ofRow r).IsBegunBy r := ⟨rfl, rfl, rfl⟩

theorem Entry.IsBegunBy.continued {e : Entry} {r : Row} (h : e.IsBegunBy r) (s : Row) :
    (e.continued s).IsBegunBy r := by
  refine ⟨h.dimensions, h.timestamp, ?_⟩
  rw [continued_ids, List.head?_append, h.head]
  rfl

theorem Entry.IsBegunBy.isOf {e : Entry} {r : Row} (h : e.IsBegunBy r) (session : String) :
    e.isOf session = r.isOf session := by
  rw [Entry.isOf, Row.isOf, h.dimensions]

/-- What is open is the payload that a row began. -/
def IsOpen (pending : Option Entry) (opener : Option Row) : Prop :=
  Option.Rel (fun e r => e.IsBegunBy r ∧ e.message ≠ "") pending opener

theorem isOpen_none : IsOpen none none := .none

@[simp] theorem isOpen_none_iff {opener : Option Row} : IsOpen none opener ↔ opener = none := by
  cases opener <;> simp [IsOpen]

@[simp] theorem isOpen_some_iff {e : Entry} {opener : Option Row} :
    IsOpen (some e) opener ↔ ∃ r, opener = some r ∧ e.IsBegunBy r ∧ e.message ≠ "" := by
  cases opener <;> simp [IsOpen]

/-- **Step.**  Stitching a row keeps track of the row that began what is open. -/
theorem IsOpen.openAfter {pending : Option Entry} {opener : Option Row}
    (h : IsOpen pending opener) (r : Row) : IsOpen (openAfter pending r) (noteRow opener r) := by
  rw [TrustFramework.openAfter, noteRow]
  split
  · exact isOpen_none
  · split
    · next hopens => exact .some ⟨Entry.isBegunBy_ofRow r, Entry.ofRow_message_ne_empty hopens⟩
    · cases h with
      | none => exact isOpen_none
      | some h => exact .some ⟨h.1.continued r, Entry.continued_message_ne_empty h.2 r⟩

theorem stitchFrom_nil {pending : Option Entry} {opener : Option Row}
    (h : IsOpen pending opener) : stitchFrom pending [] = pending.toList := by
  cases h with
  | none => rfl
  | some h => exact stitchFrom_some_nil h.2

/-- **Run.**  Stitching some rows and then others. -/
theorem exists_stitchFrom_append {pending : Option Entry} {opener : Option Row}
    (h : IsOpen pending opener) (rows : List Row) :
    ∃ completed open', IsOpen open' (rows.foldl noteRow opener) ∧
      ∀ rest, stitchFrom pending (rows ++ rest) = completed ++ stitchFrom open' rest := by
  induction rows generalizing pending opener with
  | nil => exact ⟨[], pending, h, fun rest => rfl⟩
  | cons r rows ih =>
    obtain ⟨completed, open', hopen, hrest⟩ := ih (h.openAfter r)
    refine ⟨completedBy pending r ++ completed, open', hopen, fun rest => ?_⟩
    rw [List.cons_append, stitchFrom_cons, hrest, List.append_assoc]

/-! ### Rows in entries -/

/-- **Step.**  The rows of what is open and the next one are in what the row completes and
in what is open behind it. -/
theorem flatMap_ids_completedBy (pending : Option Entry) (r : Row) :
    (completedBy pending r ++ (openAfter pending r).toList).flatMap Entry.ids =
      pending.toList.flatMap Entry.ids ++ [r.id] := by
  cases hopens : opensPayload r.part <;> cases hcloses : closesPayload r.part <;>
    cases pending <;> simp [completedBy, openAfter, hopens, hcloses]

/-- **Every row is in one entry**, and entries keep the order of rows. -/
theorem flatMap_ids_stitchFrom {pending : Option Entry} {opener : Option Row}
    (h : IsOpen pending opener) (rows : List Row) :
    (stitchFrom pending rows).flatMap Entry.ids =
      pending.toList.flatMap Entry.ids ++ rows.map Row.id := by
  induction rows generalizing pending opener with
  | nil => rw [stitchFrom_nil h, List.map_nil, List.append_nil]
  | cons r rows ih =>
    rw [stitchFrom_cons, List.flatMap_append, ih (h.openAfter r), ← List.append_assoc,
      ← List.flatMap_append, flatMap_ids_completedBy, List.map_cons, List.append_assoc,
      List.singleton_append]

/-- An entry that is open becomes one that has its rows and maybe more. -/
theorem exists_entry_of_open {e : Entry} {opener : Row} (h : e.IsBegunBy opener)
    (hmessage : e.message ≠ "") (rows : List Row) :
    ∃ x ∈ stitchFrom (some e) rows, x.IsBegunBy opener ∧ e.ids ⊆ x.ids := by
  induction rows generalizing e with
  | nil => exact ⟨e, by simp [stitchFrom_some_nil hmessage], h, List.Subset.refl _⟩
  | cons r rows ih =>
    cases hopens : opensPayload r.part with
    | true => exact ⟨e, by simp [stitchFrom_some_cons, hopens], h, List.Subset.refl _⟩
    | false =>
      have hids : e.ids ⊆ (e.continued r).ids := List.subset_append_left _ _
      cases hcloses : closesPayload r.part with
      | true =>
        refine ⟨e.continued r, ?_, h.continued r, hids⟩
        simp [stitchFrom_some_cons, hopens, hcloses]
      | false =>
        obtain ⟨x, hx, hbegun, hsub⟩ :=
          ih (h.continued r) (Entry.continued_message_ne_empty hmessage r)
        refine ⟨x, ?_, hbegun, List.Subset.trans hids hsub⟩
        simpa [stitchFrom_some_cons, hopens, hcloses] using hx

/-- **The entry that a row becomes a part of** if it goes on with a payload: the one that
is open in front of it, or else one of its own. -/
theorem exists_entry_of_continuation (before after : List Row) {r : Row}
    (hopens : opensPayload r.part = false) :
    ∃ e ∈ stitchFrom none (before ++ r :: after),
      e.IsBegunBy ((openedBy? before).getD r) ∧ r.id ∈ e.ids := by
  obtain ⟨completed, pending, hopen, hrest⟩ : ∃ completed pending,
      IsOpen pending (openedBy? before) ∧
        ∀ rest, stitchFrom none (before ++ rest) = completed ++ stitchFrom pending rest :=
    exists_stitchFrom_append isOpen_none before
  rw [hrest]
  cases hpending : pending with
  | none =>
    have hopener : openedBy? before = none := isOpen_none_iff.mp (hpending ▸ hopen)
    refine ⟨Entry.ofRow r, ?_, ?_, by simp⟩
    · simp [stitchFrom_none_cons, hopens]
    · rw [hopener]
      exact Entry.isBegunBy_ofRow r
  | some p =>
    obtain ⟨opener, hopener, hbegun, hmessage⟩ := isOpen_some_iff.mp (hpending ▸ hopen)
    rw [hopener, Option.getD_some]
    have hown : r.id ∈ (p.continued r).ids := by simp
    cases hcloses : closesPayload r.part with
    | true =>
      refine ⟨p.continued r, ?_, hbegun.continued r, hown⟩
      simp [stitchFrom_some_cons, hopens, hcloses]
    | false =>
      obtain ⟨x, hx, hxbegun, hsub⟩ := exists_entry_of_open (hbegun.continued r)
        (Entry.continued_message_ne_empty hmessage r) after
      refine ⟨x, List.mem_append_right _ ?_, hxbegun, hsub hown⟩
      simpa [stitchFrom_some_cons, hopens, hcloses] using hx

/-- What a row completes is begun by the row or was open in front of it. -/
theorem isBegunBy_of_mem_completedBy {pending : Option Entry} {r : Row} {e : Entry}
    (he : e ∈ completedBy pending r) :
    e.IsBegunBy r ∨ ∃ p ∈ pending, e = p ∨ e = p.continued r := by
  cases hopens : opensPayload r.part with
  | true =>
    simp only [completedBy, hopens, if_pos, List.mem_append, Option.mem_toList] at he
    rcases he with he | he
    · exact Or.inr ⟨e, he, Or.inl rfl⟩
    · split at he
      · rw [List.mem_singleton.mp he]
        exact Or.inl (Entry.isBegunBy_ofRow r)
      · cases he
  | false =>
    cases pending with
    | none =>
      have : e = Entry.ofRow r := by simpa [completedBy, hopens] using he
      exact Or.inl (this ▸ Entry.isBegunBy_ofRow r)
    | some p =>
      have : closesPayload r.part = true ∧ e = p.continued r := by
        simpa [completedBy, hopens] using he
      exact Or.inr ⟨p, rfl, Or.inr this.2⟩

/-- Every entry is begun by a row. -/
theorem exists_row_of_mem_stitchFrom {pending : Option Entry} {opener : Option Row}
    (h : IsOpen pending opener) {rows : List Row} {e : Entry} (he : e ∈ stitchFrom pending rows) :
    ∃ r, (r ∈ rows ∨ opener = some r) ∧ e.IsBegunBy r := by
  induction rows generalizing pending opener with
  | nil =>
    rw [stitchFrom_nil h] at he
    -- behind the last row only what is open is left
    cases h with
    | none => cases he
    | some h =>
      rw [List.mem_singleton.mp he]
      exact ⟨_, Or.inr rfl, h.1⟩
  | cons r rows ih =>
    rw [stitchFrom_cons, List.mem_append] at he
    rcases he with he | he
    · rcases isBegunBy_of_mem_completedBy he with hr | ⟨p, hp, hep⟩
      · exact ⟨r, Or.inl List.mem_cons_self, hr⟩
      · cases h with
        | none => cases hp
        | some h =>
          cases hp
          refine ⟨_, Or.inr rfl, ?_⟩
          rcases hep with rfl | rfl
          · exact h.1
          · exact h.1.continued r
    · obtain ⟨s, hs, hes⟩ := ih (h.openAfter r) he
      refine ⟨s, ?_, hes⟩
      rcases hs with hs | hs
      · exact Or.inl (List.mem_cons_of_mem _ hs)
      · have hnoted : [r].foldl noteRow opener = some s := hs
        rcases mem_of_foldl_noteRow hnoted with hs | hs
        · exact Or.inl (List.mem_singleton.mp hs ▸ List.mem_cons_self)
        · exact Or.inr hs

/-! ### What undisturbed sessions get -/

/-- What is open among all rows and among those of a session alone, behind some rows.  If
the former belongs to the session, it is the latter. -/
structure Tracks (session : String) (before : List Row) (shared own : Option Entry) : Prop where
  shared_open : IsOpen shared (openedBy? before)
  own_open : IsOpen own (openedBy? (before.filter (Row.isOf session)))
  own_eq : ∀ e ∈ shared, e.isOf session = true → own = some e

/-- The entry that is complete among all rows already and open yet among those of a
session alone. -/
def ahead (session : String) (shared own : Option Entry) : List Entry :=
  if shared.any (Entry.isOf session) then [] else own.toList

theorem ahead_self {session : String} {own : Option Entry}
    (h : ∀ e ∈ own, e.isOf session = true) : ahead session own own = [] := by
  cases own with
  | none => rfl
  | some e => simp [ahead, h e rfl]

theorem ahead_eq_toList {session : String} {shared own : Option Entry}
    (h : ∀ e ∈ shared, e.isOf session = false) : ahead session shared own = own.toList := by
  cases shared with
  | none => rfl
  | some e => simp [ahead, h e rfl]

/-- The entries a row completes belong to a session as the row and what is open do. -/
theorem isOf_of_mem_completedBy {session : String} {pending : Option Entry} {r : Row} {b : Bool}
    (hr : r.isOf session = b) (hpending : ∀ p ∈ pending, p.isOf session = b) :
    ∀ e ∈ completedBy pending r, e.isOf session = b := by
  intro e he
  rcases isBegunBy_of_mem_completedBy he with hbegun | ⟨p, hp, rfl | rfl⟩
  · rw [hbegun.isOf, hr]
  · exact hpending e hp
  · rw [Entry.isOf_continued, hpending p hp]

/-- What is open behind a row belongs to a session as the row does, or what is open in front
of it if the row goes on with a payload. -/
theorem isOf_of_mem_openAfter {session : String} {pending : Option Entry} {r : Row} {b : Bool}
    (hr : r.isOf session = b)
    (hpending : opensPayload r.part = false → ∀ p ∈ pending, p.isOf session = b) :
    ∀ e ∈ openAfter pending r, e.isOf session = b := by
  intro e he
  rw [openAfter] at he
  split at he
  · cases he
  · split at he
    · cases he
      exact hr
    · next hopens =>
      obtain ⟨p, hp, rfl⟩ := Option.map_eq_some_iff.mp he
      exact hpending (eq_false_of_ne_true hopens) p hp

theorem isOf_of_openedBy?_filter {session : String} {before : List Row} {opener : Row}
    (h : openedBy? (before.filter (Row.isOf session)) = some opener) :
    opener.isOf session = true :=
  (List.mem_filter.mp (mem_of_openedBy? h)).2

theorem openedBy?_append (before : List Row) (r : Row) :
    openedBy? (before ++ [r]) = noteRow (openedBy? before) r := by
  simp [openedBy?]

namespace Tracks

variable {session : String} {before : List Row} {shared own : Option Entry}

theorem start (session : String) : Tracks session [] none none where
  shared_open := isOpen_none
  own_open := isOpen_none
  own_eq := by simp

theorem own_isOf (h : Tracks session before shared own) : ∀ e ∈ own, e.isOf session = true := by
  rintro e rfl
  obtain ⟨opener, hopener, hbegun, -⟩ := isOpen_some_iff.mp h.own_open
  rw [hbegun.isOf]
  exact isOf_of_openedBy?_filter hopener

/-- What is open among the rows of the session is ahead or open among all rows. -/
theorem ahead_append (h : Tracks session before shared own) :
    ahead session shared own ++ shared.toList.filter (Entry.isOf session) = own.toList := by
  cases hshared : shared with
  | none => simp [ahead]
  | some e =>
    cases he : e.isOf session with
    | true => simp [ahead, he, h.own_eq e hshared he]
    | false => simp [ahead, he]

/-- The same payload is open if the same row began it. -/
theorem shared_eq (h : Tracks session before shared own)
    (hopener : openedBy? before = openedBy? (before.filter (Row.isOf session))) :
    shared = own := by
  cases hshared : shared with
  | none =>
    -- nothing is open among all rows, and so nothing among those of the session
    have hnone : openedBy? before = none := isOpen_none_iff.mp (hshared ▸ h.shared_open)
    have hown := h.own_open
    rw [← hopener, hnone] at hown
    cases hown with
    | none => rfl
  | some e =>
    obtain ⟨opener, hsome, hbegun, -⟩ := isOpen_some_iff.mp (hshared ▸ h.shared_open)
    have he : e.isOf session = true := by
      rw [hbegun.isOf]
      exact isOf_of_openedBy?_filter (hopener ▸ hsome)
    exact (h.own_eq e hshared he).symm

/-- **Step**, for a row of the session: it is stitched as among the rows of the session. -/
theorem step_own (h : Tracks session before shared own) {r : Row} (hr : r.isOf session = true)
    (hundisturbed : opensPayload r.part = false →
      openedBy? before = openedBy? (before.filter (Row.isOf session))) :
    Tracks session (before ++ [r]) (openAfter shared r) (openAfter own r) ∧
      ahead session shared own ++ (completedBy shared r).filter (Entry.isOf session) =
        completedBy own r ++ ahead session (openAfter shared r) (openAfter own r) := by
  -- a row that begins a payload forgets what was open, and any other finds the same open
  have hopen : openAfter shared r = openAfter own r := by
    cases hopens : opensPayload r.part with
    | false => rw [h.shared_eq (hundisturbed hopens)]
    | true => simp [openAfter, hopens]
  have hafter : ∀ e ∈ openAfter own r, e.isOf session = true :=
    isOf_of_mem_openAfter hr fun _ => h.own_isOf
  have htracks : Tracks session (before ++ [r]) (openAfter shared r) (openAfter own r) := by
    refine ⟨?_, ?_, fun e he _ => hopen ▸ he⟩
    · rw [openedBy?_append]
      exact h.shared_open.openAfter r
    · rw [List.filter_append, List.filter_cons_of_pos hr, List.filter_nil, openedBy?_append]
      exact h.own_open.openAfter r
  refine ⟨htracks, ?_⟩
  rw [hopen, ahead_self hafter, List.append_nil]
  cases hopens : opensPayload r.part with
  | false =>
    rw [h.shared_eq (hundisturbed hopens), ahead_self h.own_isOf, List.nil_append]
    exact List.filter_eq_self.mpr (isOf_of_mem_completedBy hr h.own_isOf)
  | true =>
    simp only [completedBy, hopens, if_true]
    rw [List.filter_append, ← List.append_assoc, h.ahead_append]
    cases closesPayload r.part <;> simp [hr]

/-- **Step**, for a row of another session: it completes nothing of the session but what is
open among its rows already. -/
theorem step_other (h : Tracks session before shared own) {r : Row} (hr : r.isOf session = false)
    (hundisturbed : opensPayload r.part = false →
      ∀ opener ∈ openedBy? before, opener.isOf session = false) :
    Tracks session (before ++ [r]) (openAfter shared r) own ∧
      ahead session shared own ++ (completedBy shared r).filter (Entry.isOf session) =
        ahead session (openAfter shared r) own := by
  have hshared : opensPayload r.part = false → ∀ e ∈ shared, e.isOf session = false := by
    rintro hopens e rfl
    obtain ⟨opener, hopener, hbegun, -⟩ := isOpen_some_iff.mp h.shared_open
    rw [hbegun.isOf]
    exact hundisturbed hopens opener hopener
  have hafter : ∀ e ∈ openAfter shared r, e.isOf session = false :=
    isOf_of_mem_openAfter hr hshared
  have htracks : Tracks session (before ++ [r]) (openAfter shared r) own := by
    refine ⟨?_, ?_, fun e he hown => ?_⟩
    · rw [openedBy?_append]
      exact h.shared_open.openAfter r
    · have hrest : [r].filter (Row.isOf session) = [] := by simp [hr]
      rw [List.filter_append, hrest, List.append_nil]
      exact h.own_open
    · rw [hafter e he] at hown
      cases hown
  refine ⟨htracks, ?_⟩
  rw [ahead_eq_toList hafter]
  cases hopens : opensPayload r.part with
  | false =>
    -- what the row ends, if it does, is a payload of another session
    have hnone : (completedBy shared r).filter (Entry.isOf session) = [] := by
      refine List.filter_eq_nil_iff.mpr fun e he => ?_
      rw [isOf_of_mem_completedBy hr (hshared hopens) e he]
      exact Bool.false_ne_true
    rw [hnone, List.append_nil, ahead_eq_toList (hshared hopens)]
  | true =>
    simp only [completedBy, hopens, if_true]
    rw [List.filter_append, ← List.append_assoc, h.ahead_append]
    cases closesPayload r.part <;> simp [hr]

/-- **Run.**  The entries of a session among all rows are those of its rows alone. -/
theorem ahead_append_stitchFrom (h : Tracks session before shared own) (rest : List Row)
    (hundisturbed : IsUndisturbed session (before ++ rest)) :
    ahead session shared own ++ (stitchFrom shared rest).filter (Entry.isOf session) =
      stitchFrom own (rest.filter (Row.isOf session)) := by
  induction rest generalizing before shared own with
  | nil =>
    rw [stitchFrom_nil h.shared_open, h.ahead_append]
    exact (stitchFrom_nil h.own_open).symm
  | cons r rest ih =>
    have hnext : IsUndisturbed session (before ++ [r] ++ rest) := by
      rwa [List.append_assoc, List.singleton_append]
    rw [stitchFrom_cons, List.filter_append, ← List.append_assoc]
    cases hr : r.isOf session with
    | true =>
      have hown : opensPayload r.part = false →
          openedBy? before = openedBy? (before.filter (Row.isOf session)) := fun hopens => by
        simpa [hr] using hundisturbed before r rest rfl hopens
      obtain ⟨htracks, hstep⟩ := h.step_own hr hown
      rw [hstep, List.append_assoc, ih htracks hnext, List.filter_cons_of_pos hr, stitchFrom_cons]
    | false =>
      have hother : opensPayload r.part = false →
          ∀ opener ∈ openedBy? before, opener.isOf session = false := fun hopens => by
        simpa [hr] using hundisturbed before r rest rfl hopens
      obtain ⟨htracks, hstep⟩ := h.step_other hr hother
      rw [hstep, ih htracks hnext, List.filter_cons_of_neg (by simp [hr])]

end Tracks

/-- **Undisturbed sessions are stitched as on their own.** -/
theorem stitchFrom_filter_isOf {session : String} {rows : List Row}
    (h : IsUndisturbed session rows) :
    (stitchFrom none rows).filter (Entry.isOf session) =
      stitchFrom none (rows.filter (Row.isOf session)) :=
  (Tracks.start session).ahead_append_stitchFrom rows h

/-! ### What disturbed sessions get -/

/-- Entries that share a row are the same if no two rows have one identifier. -/
theorem eq_of_mem_ids {rows : List Row} (hids : (rows.map Row.id).Nodup) {d e : Entry}
    (hd : d ∈ stitchFrom none rows) (he : e ∈ stitchFrom none rows) {id : String}
    (hdid : id ∈ d.ids) (heid : id ∈ e.ids) : d = e := by
  have hall : ((stitchFrom none rows).flatMap Entry.ids).Nodup := by
    rw [flatMap_ids_stitchFrom isOpen_none]
    exact hids
  by_contra hne
  -- different entries have no row in common, for every row is listed once
  have hdisjoint := (List.nodup_flatMap.mp hall).2
  have : Std.Symm (Function.onFun List.Disjoint Entry.ids) := ⟨fun _ _ h _ hx hy => h hy hx⟩
  exact hdisjoint.forall hd he hne hdid heid

theorem ne_of_mem_before {before after : List Row} {r s : Row}
    (hids : ((before ++ r :: after).map Row.id).Nodup) (hs : s ∈ before) : s ≠ r := by
  rintro rfl
  rw [List.map_append, List.map_cons] at hids
  exact (List.disjoint_of_nodup_append hids) (List.mem_map_of_mem hs) List.mem_cons_self

theorem getD_openedBy?_mem {before after part : List Row} {r : Row} (h : part ⊆ before) :
    (openedBy? part).getD r ∈ before ++ r :: after := by
  cases hopener : openedBy? part with
  | none => simp
  | some opener => exact List.mem_append_left _ (h (mem_of_openedBy? hopener))

/-- The same row began what is open if what is open goes on with the same row. -/
theorem openedBy?_eq_of_getD {before : List Row} {session : String} {r : Row}
    (hr : ∀ s ∈ before, s ≠ r)
    (h : (openedBy? before).getD r = (openedBy? (before.filter (Row.isOf session))).getD r) :
    openedBy? before = openedBy? (before.filter (Row.isOf session)) := by
  cases hshared : openedBy? before with
  | none =>
    cases hown : openedBy? (before.filter (Row.isOf session)) with
    | none => rfl
    | some b =>
      rw [hshared, hown] at h
      exact absurd h.symm (hr b (List.mem_filter.mp (mem_of_openedBy? hown)).1)
  | some a =>
    cases hown : openedBy? (before.filter (Row.isOf session)) with
    | none =>
      rw [hshared, hown] at h
      exact absurd h (hr a (mem_of_openedBy? hshared))
    | some b =>
      rw [hshared, hown] at h
      exact congrArg some h

/-- **Disturbed sessions are not stitched as on their own**, as their entries show by the
rows they have. -/
theorem isUndisturbed_of_ids {session : String} {rows : List Row}
    (hids : (rows.map Row.id).Nodup)
    (h : ((stitchFrom none rows).filter (Entry.isOf session)).map Entry.ids =
      (stitchFrom none (rows.filter (Row.isOf session))).map Entry.ids) :
    IsUndisturbed session rows := by
  rintro before r after rfl hopens
  obtain ⟨e, he, hbegun, hre⟩ := exists_entry_of_continuation before after hopens
  have hbefore : ∀ s ∈ before, s ≠ r := fun s hs => ne_of_mem_before hids hs
  split
  · next hr =>
    rw [List.filter_append, List.filter_cons_of_pos hr] at h
    obtain ⟨f, hf, hfbegun, hrf⟩ := exists_entry_of_continuation
      (before.filter (Row.isOf session)) (after.filter (Row.isOf session)) hopens
    -- the entry of the row on its own is the one it is in among all rows
    obtain ⟨d, hd, hdf⟩ := List.mem_map.mp (h ▸ List.mem_map_of_mem hf)
    have hde : d = e := eq_of_mem_ids hids (List.mem_filter.mp hd).1 he (hdf ▸ hrf) hre
    have hhead : some ((openedBy? before).getD r).id =
        some ((openedBy? (before.filter (Row.isOf session))).getD r).id := by
      rw [← hbegun.head, ← hfbegun.head, ← hdf, hde]
    exact openedBy?_eq_of_getD hbefore
      (List.inj_on_of_nodup_map hids (getD_openedBy?_mem (List.Subset.refl _))
        (getD_openedBy?_mem (List.filter_subset_self _)) (Option.some.inj hhead))
  · next hr =>
    intro opener hopener
    by_contra hown
    have heown : e.isOf session = true := by
      rw [hbegun.isOf, hopener]
      simpa using hown
    -- the entry of the row is then one of the session, and so is the row
    obtain ⟨f, hf, hfe⟩ :=
      List.mem_map.mp (h ▸ List.mem_map_of_mem (List.mem_filter.mpr ⟨he, heown⟩))
    have hmem : r.id ∈ ((before ++ r :: after).filter (Row.isOf session)).map Row.id := by
      have hflat := flatMap_ids_stitchFrom isOpen_none
        ((before ++ r :: after).filter (Row.isOf session))
      rw [Option.toList_none, List.flatMap_nil, List.nil_append] at hflat
      rw [← hflat]
      exact List.mem_flatMap.mpr ⟨f, hf, hfe ▸ hre⟩
    obtain ⟨s, hs, hsr⟩ := List.mem_map.mp hmem
    obtain ⟨hs, hsown⟩ := List.mem_filter.mp hs
    exact hr (List.inj_on_of_nodup_map hids hs (by simp) hsr ▸ hsown)

/-! ### Records -/

/-- The row says when it was written and what session it belongs to. -/
def Row.IsAttributed (r : Row) : Prop := r.timestamp ≠ "" ∧ r.dimensions.correlationId ≠ ""

instance (r : Row) : Decidable r.IsAttributed := inferInstanceAs (Decidable (_ ∧ _))

namespace Ingest

/-- The record of an entry, any record if its time cannot be read. -/
def recordAt (e : Entry) : LogRecord :=
  match recordOf e with
  | .ok record => record
  | .error _ => default

/-- The record of an entry whose first row is timed and attributed. -/
theorem recordOf_eq_ok {e : Entry} {r : Row} (h : e.IsBegunBy r) (htimed : r.IsTimed)
    (hattributed : r.IsAttributed) :
    recordOf e = .ok (recordAt e) ∧ (recordAt e).rawIds = e.ids ∧
      (recordAt e).correlationId = e.dimensions.correlationId := by
  obtain ⟨time, htime⟩ : ∃ time, Timestamp.read? r.timestamp = some time := by
    cases hread : Timestamp.read? r.timestamp with
    | some time => exact ⟨time, rfl⟩
    | none => simp [Row.IsTimed, Row.moment, hattributed.1, hread] at htimed
  have hrecord : ∃ record, recordOf e = .ok record ∧ record.rawIds = e.ids ∧
      record.correlationId = e.dimensions.correlationId := by
    have hsession : e.dimensions.correlationId ≠ "" := h.dimensions ▸ hattributed.2
    rw [recordOf, timestamp, h.timestamp, htime]
    exact ⟨_, rfl, rfl, by simp [textOr, hsession]⟩
  obtain ⟨record, hok, hids, hsession⟩ := hrecord
  rw [recordAt, hok]
  exact ⟨rfl, hids, hsession⟩

/-- A table that says that it has no rows has none. -/
theorem rowsOf_eq_nil {table : Value} (h : (table.get "rows").isHollow = true) :
    rowsOf table = [] := by
  rw [rowsOf]
  cases hrows : table.get "rows" with
  | list items =>
    rw [hrows] at h
    have : items = [] := List.isEmpty_iff.mp h
    rw [this]
    rfl
  | _ => rfl

section

variable {rows : List Row} (hrows : Chronological rows)
  (hattributed : ∀ r ∈ rows, r.IsAttributed)

include hrows hattributed

/-- The records of entries of rows that are timed and attributed. -/
theorem recordOf_of_mem_stitchFrom {e : Entry} (he : e ∈ stitchFrom none rows) :
    recordOf e = .ok (recordAt e) ∧ (recordAt e).rawIds = e.ids ∧
      (recordAt e).correlationId = e.dimensions.correlationId := by
  obtain ⟨r, hr | hr, hbegun⟩ := exists_row_of_mem_stitchFrom isOpen_none he
  · exact recordOf_eq_ok hbegun (hrows.1 r hr) (hattributed r hr)
  · cases hr

/-- The records of a table, whose rows may stand in any order. -/
theorem ofTable_eq_ok {table : Value} (hvalid : tableSchema.problems (Node.ofValue table) = [])
    (htable : (rowsOf table).Perm rows) :
    ofTable table = .ok ((stitchFrom none rows).map recordAt) := by
  rw [ofTable]
  split
  · next hhollow =>
    rw [rowsOf_eq_nil hhollow] at htable
    rw [← htable.nil_eq]
    rfl
  · rw [hvalid]
    simp only [stitch_eq_ok hrows htable]
    exact mapM_eq_ok fun e he => (recordOf_of_mem_stitchFrom hrows hattributed he).1

/-- The records of a session are those of its entries. -/
theorem filter_map_recordAt (session : String) :
    ((stitchFrom none rows).map recordAt).filter (fun record => record.correlationId = session) =
      ((stitchFrom none rows).filter (Entry.isOf session)).map recordAt := by
  rw [List.filter_map]
  refine congrArg _ (List.filter_congr fun e he => ?_)
  rw [Function.comp_apply, (recordOf_of_mem_stitchFrom hrows hattributed he).2.2, Entry.isOf]

theorem rawIds_map_recordAt :
    ((stitchFrom none rows).map recordAt).map LogRecord.rawIds =
      (stitchFrom none rows).map Entry.ids := by
  rw [List.map_map]
  exact List.map_congr_left fun e he => (recordOf_of_mem_stitchFrom hrows hattributed he).2.1

end

/-- **When a session gets the records it would get on its own.**  The rows of an export are
timed and attributed, and stand in any order in a table; those of a session stand in any
order in another one.  Both tables have records, and those of the former that belong to
the session are the records of the latter if the session is undisturbed, and only then
as long as no two rows have the same identifier. -/
theorem records_of_session_iff {session : String} {rows : List Row} {both alone : Value}
    (hrows : Chronological rows) (hattributed : ∀ r ∈ rows, r.IsAttributed)
    (hboth : tableSchema.problems (Node.ofValue both) = [])
    (halone : tableSchema.problems (Node.ofValue alone) = [])
    (hall : (rowsOf both).Perm rows)
    (hown : (rowsOf alone).Perm (rows.filter (Row.isOf session))) :
    ∃ records own, ofTable both = .ok records ∧ ofTable alone = .ok own ∧
      (IsUndisturbed session rows →
        records.filter (fun record => record.correlationId = session) = own) ∧
      ((rows.map Row.id).Nodup →
        records.filter (fun record => record.correlationId = session) = own →
        IsUndisturbed session rows) := by
  have hownrows := hrows.filter (Row.isOf session)
  have hownattributed : ∀ r ∈ rows.filter (Row.isOf session), r.IsAttributed :=
    fun r hr => hattributed r (List.mem_filter.mp hr).1
  refine ⟨_, _, ofTable_eq_ok hrows hattributed hboth hall,
    ofTable_eq_ok hownrows hownattributed halone hown, fun hundisturbed => ?_,
    fun hids heq => ?_⟩
  · rw [filter_map_recordAt hrows hattributed, stitchFrom_filter_isOf hundisturbed]
  · rw [filter_map_recordAt hrows hattributed] at heq
    refine isUndisturbed_of_ids hids ?_
    rw [← rawIds_map_recordAt hownrows hownattributed, ← heq, List.map_map]
    refine (List.map_congr_left fun e he => ?_).symm
    exact (recordOf_of_mem_stitchFrom hrows hattributed (List.mem_filter.mp he).1).2.1

/-! ### Sessions that overlap -/

/-- A row with a piece of a payload of a session, at a second of a minute. -/
def pieceOf (session second id piece : String) : Row :=
  { pieceAt second id piece with dimensions := { correlationId := session } }

/-- Two sessions, one after the other. -/
def inTurn : List Row :=
  [pieceOf "A" "00" "a" "[\x7b\"Kind\": \"Action\", \"Content\": ", pieceOf "A" "01" "b" "\"A\"\x7d]",
    pieceOf "B" "02" "c" "[\x7b\"Kind\": \"Action\", \"Content\": \"B\"\x7d]"]

/-- Two sessions, one while the other one's payload is open. -/
def overlapping : List Row :=
  [pieceOf "A" "00" "a" "[\x7b\"Kind\": \"Action\", \"Content\": ",
    pieceOf "B" "01" "b" "[\x7b\"Kind\": \"Action\", \"Content\": \"B\"\x7d]",
    pieceOf "A" "02" "c" "\"A\"\x7d]"]

/-- The table of some rows. -/
def tableOf (rows : List Row) : Value :=
  .object
    [("columns", .list (["id", "timestamp", "message", "customDimensions"].map fun name =>
        .object [("name", .text name)])),
      ("rows", .list (rows.map fun r =>
        .list [.text r.id, .text r.timestamp, .text r.message,
          .object [("CorrelationId", .text r.dimensions.correlationId)]]))]

/-- A session that is over when the next one begins is not disturbed by it. -/
theorem records_of_session_inTurn :
    Chronological inTurn ∧ (∀ r ∈ inTurn, r.IsAttributed) ∧ (inTurn.map Row.id).Nodup ∧
      ∃ records own, ofTable (tableOf inTurn) = .ok records ∧
        ofTable (tableOf (inTurn.filter (Row.isOf "A"))) = .ok own ∧
        records.filter (fun record => record.correlationId = "A") = own := by
  have hrows : Chronological inTurn := by
    unfold Chronological
    decide
  have hattributed : ∀ r ∈ inTurn, r.IsAttributed := by decide
  have hall : rowsOf (tableOf inTurn) = inTurn := by decide
  have hown : rowsOf (tableOf (inTurn.filter (Row.isOf "A"))) = inTurn.filter (Row.isOf "A") := by
    decide
  obtain ⟨records, own, hboth, halone, hsame, -⟩ :=
    records_of_session_iff hrows hattributed (by decide +kernel) (by decide +kernel)
      (List.Perm.of_eq hall) (List.Perm.of_eq hown)
  exact ⟨hrows, hattributed, by decide, records, own, hboth, halone,
    hsame (by decide)⟩

/-- **A session that does not get the records it would get on its own**: another one begins
a payload while its own is open. -/
theorem records_of_cut_session :
    ¬ ∀ (session : String) (rows : List Row) (both alone : Value), Chronological rows →
      (∀ r ∈ rows, r.IsAttributed) → (rows.map Row.id).Nodup →
      tableSchema.problems (Node.ofValue both) = [] →
      tableSchema.problems (Node.ofValue alone) = [] →
      (rowsOf both).Perm rows → (rowsOf alone).Perm (rows.filter (Row.isOf session)) →
      ∀ records own, ofTable both = .ok records → ofTable alone = .ok own →
        records.filter (fun record => record.correlationId = session) = own := by
  intro h
  have hrows : Chronological overlapping := by
    unfold Chronological
    decide
  have hattributed : ∀ r ∈ overlapping, r.IsAttributed := by decide
  have hall : rowsOf (tableOf overlapping) = overlapping := by decide
  have hown : rowsOf (tableOf (overlapping.filter (Row.isOf "A"))) =
      overlapping.filter (Row.isOf "A") := by
    decide
  have hboth : tableSchema.problems (Node.ofValue (tableOf overlapping)) = [] := by
    decide +kernel
  have halone : tableSchema.problems
      (Node.ofValue (tableOf (overlapping.filter (Row.isOf "A")))) = [] := by
    decide +kernel
  have hownattributed : ∀ r ∈ overlapping.filter (Row.isOf "A"), r.IsAttributed :=
    fun r hr => hattributed r (List.mem_filter.mp hr).1
  have hsame := h "A" overlapping _ _ hrows hattributed (by decide) hboth halone
    (List.Perm.of_eq hall) (List.Perm.of_eq hown) _ _
    (ofTable_eq_ok hrows hattributed hboth (List.Perm.of_eq hall))
    (ofTable_eq_ok (hrows.filter _) hownattributed halone (List.Perm.of_eq hown))
  rw [filter_map_recordAt hrows hattributed] at hsame
  -- the two pieces are two records, and one record without the other session
  have hlength := congrArg List.length hsame
  rw [List.length_map, List.length_map] at hlength
  exact absurd hlength (by decide)

end Ingest

end TrustFramework
