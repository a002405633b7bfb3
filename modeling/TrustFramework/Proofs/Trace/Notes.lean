import TrustFramework.Proofs.Trace.Registry

/-!
# The notes of a registry make no difference

A registry notes the place of the interpreter that a handler is for.  A note would mislead as soon
as that interpreter is taken out, or one in front of it.  But the registry gives its notes up
whenever interpreters come or go, so whatever was asked of it before, it answers like one that looks
its interpreters through every time.

## Main definitions

* `Interpreter.Accepts` — an interpreter takes a handler, by its full name, in short or in part.
* `Registry.Call`, `Registry.run` — what a registry may be asked, and its answers one by one.
* `Registry.firstFor?` — the first of some interpreters that accepts a handler.
* `Registry.Call.leaves`, `Registry.Call.answerFrom` — what a call leaves registered, and its
  answer if the interpreters are looked through in order.
* `Registry.Holds` — a registry holds some interpreters, in order, and its notes are right.

## Main results

* `Interpreter.claims_iff` — the handlers that an interpreter claims are those it accepts.
* `Registry.Holds.answer` — **a call is answered as without notes**, and the notes stay right.
* `Registry.Holds.run` — so are all calls of a run.
* `Registry.first_found_after_calls` — **after any calls the first interpreter is found that
  accepts a handler.**
-/

namespace TrustFramework

/-! ### Handlers that an interpreter accepts -/

/-- A test succeeds somewhere in a text exactly if it does on an end of it. -/
theorem isSome_firstFrom?_iff {α : Type} {test : List Char → Option α} {cs : List Char} :
    (firstFrom? test cs).isSome = true ↔ ∃ rest, rest <:+ cs ∧ (test rest).isSome = true := by
  induction cs with
  | nil => simp [firstFrom?]
  | cons c cs ih =>
    simp only [firstFrom?, List.suffix_cons_iff, Option.orElse_eq_or, Option.isSome_or,
      Bool.or_eq_true, ih, or_and_right, exists_or, exists_eq_left]

theorem isPartOf_iff {part : String} {cs : List Char} :
    isPartOf part cs = true ↔ part.toList <:+: cs := by
  have hfront (rest : List Char) :
      ((afterExact? part rest).map fun _ => ()).isSome = true ↔ part.toList <+: rest := by
    rw [Option.isSome_map, afterExact?, ← List.isPrefixOf_iff_prefix]
    split <;> simp_all
  simp only [isPartOf, isSome_firstFrom?_iff, hfront, List.infix_iff_prefix_suffix, and_comm]

namespace Interpreter

/-- An interpreter takes a handler that has one of its names, in full or in short.  The one for
errors also takes a handler that one of its names is part of. -/
def Accepts (i : Interpreter) (handler : String) : Prop :=
  ∃ name ∈ i.handlers, handler = name ∨ shortName handler = shortName name ∨
    i = .errorReport ∧ name.toList <:+: handler.toList

/-- **The handlers that an interpreter claims are those it accepts.** -/
theorem claims_iff {i : Interpreter} {handler : String} :
    i.claims handler = true ↔ i.Accepts handler := by
  simp only [claims, Accepts, Bool.or_eq_true, Bool.and_eq_true, List.any_eq_true,
    decide_eq_true_eq, Handler.isCalled, Handler.occursIn, isPartOf_iff]
  constructor
  · rintro (⟨name, hname, hshort⟩ | ⟨hi, name, hname, hpart⟩)
    · exact ⟨name, hname, .inr (.inl hshort)⟩
    · exact ⟨name, hname, .inr (.inr ⟨hi, hpart⟩)⟩
  · rintro ⟨name, hname, rfl | hshort | ⟨hi, hpart⟩⟩
    · exact .inl ⟨handler, hname, rfl⟩
    · exact .inl ⟨name, hname, hshort⟩
    · exact .inr ⟨hi, name, hname, hpart⟩

instance (i : Interpreter) (handler : String) : Decidable (i.Accepts handler) :=
  decidable_of_iff _ claims_iff

theorem decide_accepts (i : Interpreter) (handler : String) :
    decide (i.Accepts handler) = i.claims handler := by
  rw [Bool.eq_iff_iff, decide_eq_true_iff, claims_iff]

end Interpreter

namespace Registry

variable {r : Registry} {es : List Registered} {fallback : Option Registered}

/-! ### Calls -/

/-- What a registry may be asked to do. -/
inductive Call where
  | register (e : Registered)
  | registerAll (news : List Registered)
  | unregister (handler : String)
  | find (handler : String)
  | get (handler : String)
  | has (handler : String)
  | forget

/-- What a registry answers. -/
inductive Answer where
  /-- Only that it is done. -/
  | done
  | truth (b : Bool)
  /-- The interpreter for a handler, if there is one. -/
  | interpreter (e : Option Registered)

/-- A call carried out: the registry after it, and the answer. -/
def answer (r : Registry) : Call → Registry × Answer
  | .register e => (r.register e, .done)
  | .registerAll news => (r.registerAll news, .done)
  | .unregister handler => (r.unregister handler).map id .truth
  | .find handler => (r.find? handler).map id .interpreter
  | .get handler => (r.get? handler).map id .interpreter
  | .has handler => (r.find? handler).map id fun e => .truth e.isSome
  | .forget => (r.forgotten, .done)

/-- Calls carried out one after the other: the registry after them, and the answers. -/
def run (r : Registry) : List Call → Registry × List Answer
  | [] => (r, [])
  | c :: calls =>
    let (r, a) := r.answer c
    (r.run calls).map id (a :: ·)

/-! ### The same without notes -/

/-- The first of some interpreters that accepts a handler. -/
def firstFor? (es : List Registered) (handler : String) : Option Registered :=
  es.find? fun e => e.interpreter.Accepts handler

/-- An interpreter has a handler among its names. -/
def isNamed (handler : String) (e : Registered) : Bool := handler ∈ e.interpreter.handlers

/-- The interpreters that a call leaves registered, in the order of registration. -/
def Call.leaves (es : List Registered) : Call → List Registered
  | .register e => es ++ [e]
  | .registerAll news => es ++ news
  | .unregister handler => es.eraseP (isNamed handler)
  | .find _ => es
  | .get _ => es
  | .has _ => es
  | .forget => es.map Registered.forgotten

/-- The answer to a call when the registered interpreters are looked through in order. -/
def Call.answerFrom (fallback : Option Registered) (es : List Registered) : Call → Answer
  | .register _ => .done
  | .registerAll _ => .done
  | .unregister handler => .truth (es.any (isNamed handler))
  | .find handler => .interpreter (firstFor? es handler)
  | .get handler => .interpreter (firstFor? es handler <|> fallback)
  | .has handler => .truth (∃ e ∈ es, e.interpreter.Accepts handler)
  | .forget => .done

/-- The answers to calls one after the other. -/
def answersFrom (fallback : Option Registered) (es : List Registered) : List Call → List Answer
  | [] => []
  | c :: calls => c.answerFrom fallback es :: answersFrom fallback (c.leaves es) calls

/-! ### One call -/

/-- A registry holds some interpreters, in order, beside the one for handlers that none claims, and
its notes are right. -/
structure Holds (r : Registry) (es : List Registered) (fallback : Option Registered) : Prop where
  entries : r.entries = es
  fallback : r.fallback = fallback
  notes : r.HasRightNotes

theorem hasRightNotes_of_nil (h : r.notes = []) : r.HasRightNotes := by
  intro handler i hnote
  rw [h] at hnote
  cases hnote

theorem holds_mk (es : List Registered) (fallback : Option Registered) :
    Holds { entries := es, fallback } es fallback := ⟨rfl, rfl, hasRightNotes_of_nil rfl⟩

theorem Holds.register (h : r.Holds es fallback) (e : Registered) :
    (r.register e).Holds (es ++ [e]) fallback where
  entries := congrArg (· ++ [e]) h.entries
  fallback := h.fallback
  notes := hasRightNotes_of_nil rfl

theorem Holds.registerAll (h : r.Holds es fallback) (news : List Registered) :
    (r.registerAll news).Holds (es ++ news) fallback := by
  induction news generalizing r es with
  | nil => simpa [Registry.registerAll] using h
  | cons e news ih =>
    have hrest := ih (h.register e)
    rwa [List.append_assoc] at hrest

/-- The first interpreter that has the handler goes, and all notes with it. -/
theorem Holds.unregister (h : r.Holds es fallback) (handler : String) :
    (r.unregister handler).1.Holds (es.eraseP (isNamed handler)) fallback ∧
      (r.unregister handler).2 = es.any (isNamed handler) := by
  have hnamed : (fun e : Registered => e.interpreter.handlers.contains handler) =
      isNamed handler := by
    funext e
    exact List.contains_eq_mem _ _
  rw [Registry.unregister, h.entries, hnamed, List.eraseP_eq_eraseIdx]
  cases hplace : es.findIdx? (isNamed handler) with
  | some i =>
    refine ⟨⟨rfl, h.fallback, hasRightNotes_of_nil rfl⟩, ?_⟩
    rw [← List.findIdx?_isSome, hplace]
    rfl
  | none =>
    refine ⟨h, ?_⟩
    rw [← List.findIdx?_isSome, hplace]
    rfl

theorem Holds.place? (h : r.Holds es fallback) (handler : String) :
    r.place? handler = es.findIdx? fun e => e.interpreter.Accepts handler := by
  simp only [Registry.place?, h.entries, Interpreter.decide_accepts]

theorem Holds.locate (h : r.Holds es fallback) (handler : String) :
    (r.locate handler).1.Holds es fallback ∧
      (r.locate handler).2 = es.findIdx? fun e => e.interpreter.Accepts handler where
  left :=
    { entries := (entries_locate r handler).trans h.entries
      fallback := (fallback_locate r handler).trans h.fallback
      notes := h.notes.locate handler }
  right := (h.notes.locate_snd handler).trans (h.place? handler)

/-- A note leads to the interpreter that a search would find. -/
theorem Holds.find? (h : r.Holds es fallback) (handler : String) :
    (r.find? handler).1.Holds es fallback ∧
      (r.find? handler).2 = firstFor? es handler := by
  obtain ⟨hholds, hplace⟩ := h.locate handler
  refine ⟨hholds, ?_⟩
  show ((r.locate handler).2.bind fun i => (r.locate handler).1.entries[i]?) = _
  rw [hplace, hholds.entries, firstFor?, List.find?_eq_bind_findIdx?_getElem?]

theorem Holds.forgotten (h : r.Holds es fallback) :
    r.forgotten.Holds (es.map Registered.forgotten) fallback where
  entries := congrArg _ h.entries
  fallback := h.fallback
  notes := h.notes.congr rfl (interpreters_forgotten r)

/-- **A call is answered as without notes**, and the notes are right after it. -/
theorem Holds.answer (h : r.Holds es fallback) (c : Call) :
    (r.answer c).1.Holds (c.leaves es) fallback ∧ (r.answer c).2 = c.answerFrom fallback es := by
  cases c with
  | register e => exact ⟨h.register e, rfl⟩
  | registerAll news => exact ⟨h.registerAll news, rfl⟩
  | unregister handler =>
    obtain ⟨hholds, hanswer⟩ := h.unregister handler
    exact ⟨hholds, congrArg Answer.truth hanswer⟩
  | find handler =>
    obtain ⟨hholds, hfound⟩ := h.find? handler
    exact ⟨hholds, congrArg Answer.interpreter hfound⟩
  | get handler =>
    obtain ⟨hholds, hfound⟩ := h.find? handler
    refine ⟨hholds, congrArg Answer.interpreter ?_⟩
    show ((r.find? handler).2 <|> (r.find? handler).1.fallback) = _
    rw [hfound, hholds.fallback]
  | has handler =>
    obtain ⟨hholds, hfound⟩ := h.find? handler
    refine ⟨hholds, congrArg Answer.truth ?_⟩
    show (r.find? handler).2.isSome = _
    rw [hfound, Bool.eq_iff_iff, firstFor?, List.find?_isSome]
    simp
  | forget => exact ⟨h.forgotten, rfl⟩

/-! ### All calls of a run -/

/-- **Calls are answered as without notes**, one after the other. -/
theorem Holds.run (h : r.Holds es fallback) (calls : List Call) :
    (r.run calls).1.Holds (calls.foldl Call.leaves es) fallback ∧
      (r.run calls).2 = answersFrom fallback es calls := by
  induction calls generalizing r es with
  | nil => exact ⟨h, rfl⟩
  | cons c calls ih =>
    obtain ⟨hholds, hanswer⟩ := h.answer c
    obtain ⟨hrest, hanswers⟩ := ih hholds
    exact ⟨hrest, congrArg₂ List.cons hanswer hanswers⟩

/-- **After any calls the first interpreter is found that accepts a handler**, in the order of
registration, and all calls were answered as if there were no notes. -/
theorem first_found_after_calls (es : List Registered) (fallback : Option Registered)
    (calls : List Call) :
    let after := run { entries := es, fallback } calls
    let left := calls.foldl Call.leaves es
    after.1.entries = left ∧ after.2 = answersFrom fallback es calls ∧
      ∀ handler, (after.1.find? handler).2 = left.find? (fun e => e.interpreter.Accepts handler) ∧
        (after.1.locate handler).2 = left.findIdx? (fun e => e.interpreter.Accepts handler) := by
  obtain ⟨hholds, hanswers⟩ := (holds_mk es fallback).run calls
  refine ⟨hholds.entries, hanswers, fun handler => ?_⟩
  exact ⟨(hholds.find? handler).2, (hholds.locate handler).2⟩

end Registry

end TrustFramework
