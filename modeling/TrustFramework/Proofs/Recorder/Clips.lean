import TrustFramework.Proofs.Entity.Collection
import TrustFramework.Recorder.Clip

/-!
# Clips written and read back

A clip that was read keeps less than the value it was read from, but nothing that writing could
lose: empty parts are left out and come back empty, a chain of exceptions is written link by link,
and what was not understood is kept as it was.  The one thing that is lost is the time of an
exception that is an empty text: it is left out like any empty part, and comes back as no time.

## Main definitions

* `RecordedException.IsSpoken` — every exception of a chain says something.
* `Clip.withoutEmptyTime` — a clip with no time in place of an empty one.
* `Clip.ComesBack` — a clip comes back as it is, but for an empty time.

## Main results

* `RecordedException.read_write` — **exceptions come back**, however many led to one another.
* `HandlerResult.read_write` — **what handlers reported comes back.**
* `Clip.comesBack_ofContent` — **every clip that was read comes back**, without an empty time.
* `Clip.read?_write_iff` — **which clips come back.**
-/

namespace TrustFramework

/-! ### Fields that may be left out -/

@[simp] theorem get?_optionalField (name : String) (v : Option Value) (other : String) :
    Fields.get? (optionalField name v) other = if name = other then v else none := by
  cases v with
  | none => simp [optionalField]
  | some v => simp [optionalField, Fields.get?]

theorem textUnlessNull_getD (s : Option String) :
    textUnlessNull ((s.map Value.text).getD .null) = s := by
  cases s <;> rfl

namespace Value

theorem text?_getD (s : Option String) : ((s.map text).getD null).text? = s := by
  cases s <;> rfl

theorem fields?_getD (fields : Option (Fields Value)) :
    ((fields.map object).getD null).fields? = fields := by
  cases fields <;> rfl

end Value

/-! ### Exceptions -/

namespace RecordedException

mutual
/-- Every exception of a chain says something. -/
def IsSpoken : RecordedException → Prop
  | mk message _ _ inner => message.isEmpty = false ∧ IsInnerSpoken inner

/-- Every exception that led to another says something. -/
def IsInnerSpoken : Option RecordedException → Prop
  | none => True
  | some e => IsSpoken e
end

mutual
/-- An exception that was read says at least that nothing is known. -/
theorem isSpoken_read : ∀ v : Value, (read v).IsSpoken
  | .object fields => by
    rw [read, IsSpoken]
    refine ⟨?_, isInnerSpoken_readInner fields⟩
    split
    · decide
    · next h => simpa using h
  | .null | .bool _ | .int _ | .real _ | .text _ | .list _ => by
    simp [read, unknown, IsSpoken, IsInnerSpoken, unknownError]

theorem isInnerSpoken_readInner : ∀ fields : List (String × Value),
    IsInnerSpoken (readInner fields)
  | [] => by simp [readInner, IsInnerSpoken]
  | (name, v) :: rest => by
    rw [readInner]
    split
    · split
      · exact isSpoken_read v
      · trivial
    · exact isInnerSpoken_readInner rest
end

theorem isObject_write (e : RecordedException) : e.write.isObject = true := by
  cases e
  rw [write]
  rfl

theorem readInner_append_of_get? {fields : Fields Value} (h : fields.get? "Exception" = none)
    (more : Fields Value) : readInner (fields ++ more) = readInner more := by
  induction fields with
  | nil => rfl
  | cons entry fields ih =>
    obtain ⟨name, v⟩ := entry
    by_cases hname : name = "Exception"
    · simp [Fields.get?, hname] at h
    · rw [Fields.get?, if_neg hname] at h
      rw [List.cons_append, readInner, if_neg hname, ih h]

theorem get?_writeInner {name : String} (inner : Option RecordedException)
    (h : "Exception" ≠ name) : Fields.get? (writeInner inner) name = none := by
  cases inner with
  | none => rw [writeInner, Fields.get?]
  | some e => rw [writeInner, Fields.get?, if_neg h, Fields.get?]

mutual
/-- **Exceptions come back**, however many led to one another. -/
theorem read_write : ∀ e : RecordedException, e.IsSpoken → read e.write = e
  | mk message hresult data inner, h => by
    rw [IsSpoken] at h
    have hinner := readInner_writeInner inner h.2
    rw [write, read, readInner_append_of_get? (by simp [Fields.get?_append, Fields.get?]), hinner]
    simp [contentText, Value.get, Value.get?, Fields.get?_append, Fields.get?, get?_writeInner,
      Value.shownOrEmpty, h.1, textUnlessNull_getD, Value.fields?_getD]

/-- So does the one that led to another. -/
theorem readInner_writeInner : ∀ inner : Option RecordedException, IsInnerSpoken inner →
    readInner (writeInner inner) = inner
  | none, _ => by simp [writeInner, readInner]
  | some e, h => by
    rw [writeInner, readInner, if_pos rfl, if_pos (isObject_write e), read_write e h]
end

end RecordedException

/-! ### Handlers -/

namespace Record

theorem readRecord_write (entry : Record) : HandlerResult.readRecord entry.write = entry := by
  rfl

end Record

namespace HandlerResult

/-- What handlers reported as it can be read: entries of the statebag are something, and exceptions
say something. -/
structure IsSettled (r : HandlerResult) : Prop where
  statebag : ∀ entry ∈ r.statebag, entry.2.isNull = false
  exception : ∀ e ∈ r.exception, e.IsSpoken

theorem isSettled_read (content : Value) : (read content).IsSettled where
  statebag := by
    intro entry hentry
    simpa using (List.mem_filter.mp hentry).2
  exception := by
    intro e he
    change readException? content = some e at he
    unfold readException? at he
    split at he
    · obtain rfl := Option.some.inj he
      exact RecordedException.isSpoken_read _
    · cases he

/-- What stands under the names of a content that was written: nothing for an empty part. -/
theorem get_write (r : HandlerResult) :
    r.write.get "Result" = .bool r.result ∧
      r.write.get "PredicateResult" = (r.predicateResult.map Value.text).getD .null ∧
      r.write.get "Statebag" = (if r.statebag = [] then .null else .object r.statebag) ∧
      r.write.get "RecorderRecord" = (if r.records = [] then .null
        else .object [("Values", .list (r.records.map Record.write))]) ∧
      r.write.get "Exception" = (r.exception.map RecordedException.write).getD .null := by
  cases hstatebag : r.statebag <;> cases hrecords : r.records <;>
    simp [write, Value.get, Value.get?, Fields.get?_append, Fields.get?, hstatebag, hrecords]

/-- **What handlers reported comes back.** -/
theorem read_write {r : HandlerResult} (h : r.IsSettled) : read r.write = r := by
  obtain ⟨hresult, hpredicate, hstatebag, hrecords, hexception⟩ := r.get_write
  have hreadStatebag : readStatebag r.write = r.statebag := by
    rw [readStatebag, hstatebag]
    split
    · next hempty => rw [hempty]; rfl
    · exact List.filter_eq_self.mpr fun entry hentry => by simp [h.statebag entry hentry]
  have hreadRecords : readRecords r.write = r.records := by
    rw [readRecords, hrecords]
    by_cases hempty : r.records = []
    · rw [if_pos hempty, hempty]
    · have hall : (r.records.map Record.write).map readRecord = r.records := by
        rw [List.map_map]
        exact (List.map_congr_left fun entry _ => entry.readRecord_write).trans (List.map_id _)
      rw [if_neg hempty]
      exact hall
  have hreadException : readException? r.write = r.exception := by
    rw [readException?, hexception]
    cases hr : r.exception with
    | none => rfl
    | some e =>
      rw [Option.map_some, Option.getD_some, if_pos e.isObject_write,
        RecordedException.read_write e (h.exception e hr)]
  rw [read, hresult, hpredicate, hreadStatebag, hreadRecords, hreadException, Value.text?_getD]
  rfl

end HandlerResult

/-! ### Clips -/

theorem Headers.read_write (h : Headers) : Headers.read h.write = h := by
  simp [Headers.read, Headers.write, contentText, Value.get, Value.get?, Fields.get?,
    Value.shownOrEmpty]

namespace Clip

/-- A clip with no time in place of an empty one. -/
def withoutEmptyTime : Clip → Clip
  | fatal exception time => fatal exception (time.filter fun s => !s.isEmpty)
  | clip => clip

/-- A clip comes back as it is, but for an empty time. -/
def ComesBack (c : Clip) : Prop := ofContent c.kind c.content = c.withoutEmptyTime

theorem comesBack_headers (h : Headers) : (headers h).ComesBack :=
  congrArg headers h.read_write

theorem comesBack_transition (eventName stateName : String) :
    (transition eventName stateName).ComesBack := rfl

theorem comesBack_handlerResult (content : Value) :
    (handlerResult (HandlerResult.read content)).ComesBack :=
  congrArg handlerResult (HandlerResult.read_write (HandlerResult.isSettled_read content))

theorem comesBack_fatal (v : Value) (time : Option String) :
    (fatal (RecordedException.read v) time).ComesBack := by
  have hexception : (content (fatal (RecordedException.read v) time)).get "Exception" =
      (RecordedException.read v).write := by
    simp [content, Value.get, Value.get?, Fields.get?]
  have htime : (content (fatal (RecordedException.read v) time)).get "Time" =
      ((time.filter fun s => !s.isEmpty).map Value.text).getD .null := by
    simp [content, Value.get, Value.get?, Fields.get?]
  change fatal _ _ = fatal _ _
  rw [hexception, htime, RecordedException.read_write _ (RecordedException.isSpoken_read v),
    Value.text?_getD]

/-- A content that is no object is kept with the kind that wants one. -/
theorem comesBack_ofObject {kind : String} {content : Value} {c : Clip}
    (hkind : ofContent kind content = ofObject kind content c) (hc : c.ComesBack) :
    (ofObject kind content c).ComesBack := by
  cases hobject : content.isObject with
  | true => rwa [ofObject, if_pos hobject]
  | false =>
    rw [ofObject, hobject] at hkind ⊢
    exact hkind

/-- **Every clip that was read comes back**, without an empty time. -/
theorem comesBack_ofContent (kind : String) (content : Value) :
    (ofContent kind content).ComesBack := by
  fun_cases ofContent kind content with
  | case1 => exact comesBack_ofObject rfl (comesBack_headers _)
  | case2 => exact comesBack_ofObject rfl (comesBack_transition _ _)
  | case3 => exact rfl
  | case4 => exact rfl
  | case5 => exact comesBack_ofObject rfl (comesBack_handlerResult content)
  | case6 | case7 => exact comesBack_fatal _ _
  | case8 =>
    -- what no kind is known for is not read at all
    rw [ComesBack, Clip.kind, Clip.content, ofContent]
    · rfl
    all_goals assumption

/-- The clips whose time is no empty text. -/
theorem withoutEmptyTime_eq_self_iff {c : Clip} :
    c.withoutEmptyTime = c ↔ ∀ exception, c ≠ fatal exception (some "") := by
  cases c with
  | fatal exception time =>
    cases time with
    | none => simp [withoutEmptyTime]
    | some s => by_cases hs : s = "" <;> simp [withoutEmptyTime, hs]
  | _ => simp [withoutEmptyTime]

/-- **Which clips come back** when they are written and read again: all but those of an exception
whose time is an empty text, which come back without it. -/
theorem read?_write_iff {v : Value} {c : Clip} (h : read? v = some c) :
    read? c.write = some c.withoutEmptyTime ∧
      (read? c.write = some c ↔ ∀ exception, c ≠ fatal exception (some "")) := by
  have hback : c.ComesBack := by
    unfold read? at h
    split at h
    · obtain rfl := Option.some.inj h
      exact comesBack_ofContent _ _
    · cases h
  have hread : read? c.write = some c.withoutEmptyTime := congrArg some hback
  refine ⟨hread, ?_⟩
  rw [hread, Option.some.injEq, withoutEmptyTime_eq_self_iff]

/-- A report of a handler that failed because something else did: a part of its statebag is nothing,
and the exception that came first has no message. -/
def failedReport : Value :=
  .object
    [("Kind", .text "HandlerResult"),
      ("Content", .object
        [("Result", .int 1),
          ("Statebag", .object [("CTP", .null), ("ORCH_CS", .object [("v", .int 2)])]),
          ("RecorderRecord", .object [("Values", .list [.object [("Key", .int 3)], .null])]),
          ("Exception", .object
            [("Message", .text "Refused"), ("HResult", .int 5), ("Data", .object []),
              ("Exception", .object [("Message", .null), ("HResult", .text "")])])])]

theorem read?_write_failedReport :
    let c := handlerResult
      { statebag := [("ORCH_CS", .object [("v", .int 2)])]
        records := [⟨"3", .null⟩, ⟨"", .null⟩]
        exception := some (.mk "Refused" (some "5") (some [])
          (some (.mk "Unknown error" (some "") none none))) }
    read? failedReport = some c ∧ read? c.write = some c := by
  intro c
  have hread : read? failedReport = some c := by rfl
  exact ⟨hread, (read?_write_iff hread).2.mpr fun exception => by simp [c]⟩

/-- An exception whose time is an empty text. -/
def untimedException : Value :=
  .object [("Kind", .text "FatalException"), ("Content", .object [("Time", .text "")])]

/-- **A clip that does not come back**: it had an empty text for a time, and has no time then. -/
theorem empty_time_lost :
    ¬ ∀ (v : Value) (c : Clip), read? v = some c → read? c.write = some c := by
  intro h
  have hlost : read? (fatal .unknown (some "")).write = some (fatal .unknown none) := by rfl
  have hback := h untimedException (fatal .unknown (some "")) rfl
  rw [hlost] at hback
  simp at hback

end Clip

end TrustFramework
