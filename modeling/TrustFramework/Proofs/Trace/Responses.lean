import TrustFramework.Proofs.Json.Reading
import TrustFramework.Proofs.Value
import TrustFramework.Trace.Evidence

/-!
# The response in a line of protocol

The response of a service is what stands in braces behind `Response:`, up to the first closing
brace that ends a line.  Braces inside it are not counted.  So a text that spells an object is
taken whole if none of its inner braces ends a line, as in a text on one line; with a line for each
field of an object inside it, the response breaks off where that object ends.

## Main results

* `breaksAt_of_upToBrace?` — **where a response ends.**
* `responseText?_append` — **the response is behind the first `Response:`.**
* `BackendCall.read?_response_iff` — **the objects that are read as a response.**
* `isCutWhole_of_single_line` — those on one line are among them.
-/

namespace TrustFramework

/-! ### The ends of lines -/

/-- Nothing but blanks stands before the end of a text, or of its first line. -/
def LineEnds (cs : List Char) : Prop :=
  (∀ c ∈ cs, Text.isBlank c = true) ∨
    ∃ blanks rest, cs = blanks ++ '\n' :: rest ∧ ∀ c ∈ blanks, Text.isBlank c = true

theorem endsLine_iff (cs : List Char) : endsLine cs = true ↔ LineEnds cs := by
  unfold endsLine
  simp only [Bool.or_eq_true, List.contains_iff_mem, decide_eq_true_eq]
  constructor
  · rintro (hmem | hlength)
    · obtain ⟨blanks, more, hsplit⟩ := List.append_of_mem hmem
      refine Or.inr ⟨blanks, more ++ cs.dropWhile Text.isBlank, ?_, ?_⟩
      · rw [← List.cons_append, ← List.append_assoc, ← hsplit, List.takeWhile_append_dropWhile]
      · intro c hc
        have hc' : c ∈ cs.takeWhile Text.isBlank := by
          rw [hsplit]
          exact List.mem_append_left _ hc
        exact List.mem_takeWhile_imp hc'
    · left
      intro c hc
      rw [← (List.takeWhile_prefix Text.isBlank).eq_of_length hlength] at hc
      exact List.mem_takeWhile_imp hc
  · rintro (hall | ⟨blanks, rest, rfl, hblanks⟩)
    · right
      rw [List.takeWhile_eq_self_iff.mpr hall]
    · left
      rw [List.takeWhile_append_of_pos hblanks,
        List.takeWhile_cons_of_pos (by decide : Text.isBlank '\n' = true)]
      exact List.mem_append_right _ List.mem_cons_self

/-- A text breaks at its first closing brace that ends a line. -/
structure BreaksAt (cs inner after : List Char) : Prop where
  split : cs = inner ++ '\x7d' :: after
  ends : LineEnds after
  first : ∀ inner' after', cs = inner' ++ '\x7d' :: after' → LineEnds after' →
    inner.length ≤ inner'.length

/-- One more character in front does not matter, unless it is such a brace itself. -/
theorem BreaksAt.cons {cs inner after : List Char} (h : BreaksAt cs inner after) {c : Char}
    (hc : c = '\x7d' → ¬ LineEnds cs) : BreaksAt (c :: cs) (c :: inner) after := by
  refine ⟨by rw [h.split, List.cons_append], h.ends, ?_⟩
  intro inner' after' heq hends
  cases inner' with
  | nil =>
    obtain ⟨hbrace, rfl⟩ := List.cons.inj heq
    exact absurd hends (hc hbrace)
  | cons c' inner' =>
    have hle := h.first inner' after' (List.cons.inj heq).2 hends
    simp only [List.length_cons]
    omega

/-- **Where a response ends**: at the first closing brace that ends a line. -/
theorem breaksAt_of_upToBrace? {cs body : List Char} (h : upToBrace? cs = some body) :
    ∃ inner after, BreaksAt cs inner after ∧ body = inner ++ ['\x7d'] := by
  fun_induction upToBrace? cs generalizing body with
  | case1 => cases h
  | case2 rest hends =>
    cases h
    exact ⟨[], rest, ⟨rfl, (endsLine_iff rest).mp hends, fun _ _ _ _ => Nat.zero_le _⟩, rfl⟩
  | case3 rest hends ih =>
    obtain ⟨tail, htail, rfl⟩ := Option.map_eq_some_iff.mp h
    obtain ⟨inner, after, hbreaks, rfl⟩ := ih htail
    refine ⟨'\x7d' :: inner, after, hbreaks.cons ?_, rfl⟩
    intro _ hline
    exact hends ((endsLine_iff rest).mpr hline)
  | case4 c rest hbrace ih =>
    obtain ⟨tail, htail, rfl⟩ := Option.map_eq_some_iff.mp h
    obtain ⟨inner, after, hbreaks, rfl⟩ := ih htail
    refine ⟨c :: inner, after, hbreaks.cons ?_, rfl⟩
    intro hc
    exact absurd hc hbrace

/-- A response ends if some closing brace ends a line. -/
theorem exists_upToBrace? (inner : List Char) {after : List Char} (h : LineEnds after) :
    ∃ body, upToBrace? (inner ++ '\x7d' :: after) = some body := by
  induction inner with
  | nil => exact ⟨['\x7d'], by rw [List.nil_append, upToBrace?, if_pos ((endsLine_iff _).mpr h)]⟩
  | cons c inner ih =>
    obtain ⟨body, hbody⟩ := ih
    rw [List.cons_append]
    by_cases hc : c = '\x7d'
    · subst hc
      rw [upToBrace?]
      split
      · exact ⟨_, rfl⟩
      · exact ⟨'\x7d' :: body, by rw [hbody, Option.map_some]⟩
    · rw [upToBrace?.eq_3 _ _ hc, hbody]
      exact ⟨c :: body, rfl⟩

/-! ### The first place of a word -/

/-- A test that fails wherever the front of a text is left over finds what it finds behind it. -/
theorem firstFrom?_append {α : Type} {test : List Char → Option α} {before cs : List Char}
    (h : ∀ front back, before = front ++ back → back ≠ [] → test (back ++ cs) = none) :
    firstFrom? test (before ++ cs) = firstFrom? test cs := by
  induction before with
  | nil => rfl
  | cons c before ih =>
    have hhead : test (c :: (before ++ cs)) = none := h [] (c :: before) rfl (List.cons_ne_nil _ _)
    rw [List.cons_append, firstFrom?, hhead, Option.orElse_none]
    refine ih ?_
    intro front back hsplit hback
    exact h (c :: front) back (by rw [hsplit, List.cons_append]) hback

theorem firstFrom?_of_some {α : Type} {test : List Char → Option α} {cs : List Char} {a : α}
    (h : test cs = some a) : firstFrom? test cs = some a := by
  cases cs with
  | nil => exact h
  | cons c cs => rw [firstFrom?, h, Option.orElse_some]

theorem afterExact?_append (word : String) (cs : List Char) :
    afterExact? word (word.toList ++ cs) = some cs := by
  have hprefix : word.toList.isPrefixOf (word.toList ++ cs) = true :=
    List.isPrefixOf_iff_prefix.mpr (List.prefix_append _ _)
  rw [afterExact?, if_pos hprefix, ← String.length_toList, List.drop_left]

/-- A word whose first letter does not come again cannot begin in front of itself and reach into
itself. -/
theorem prefix_of_prefix_append {c : Char} {tail back cs : List Char} (hc : c ∉ tail)
    (hback : back ≠ []) (h : c :: tail <+: back ++ (c :: tail ++ cs)) : c :: tail <+: back := by
  rcases List.prefix_or_prefix_of_prefix h (List.prefix_append back _) with hwhole | hpart
  · exact hwhole
  · obtain ⟨more, hmore⟩ := hpart
    cases back with
    | nil => exact absurd rfl hback
    | cons b back =>
      cases more with
      | nil =>
        rw [List.append_nil] at hmore
        exact ⟨[], by rw [List.append_nil, hmore]⟩
      | cons m more =>
        -- the word would go on with its own first letter
        rw [← hmore] at h
        have hnext := (List.prefix_append_right_inj _).mp h
        rw [hmore, List.cons_append, List.cons_prefix_cons] at hnext
        refine absurd ?_ hc
        rw [← (List.cons.inj hmore).2, hnext.1]
        exact List.mem_append_right _ List.mem_cons_self

/-- **The response is behind the first `Response:`**, blanks between them aside. -/
theorem responseText?_append {before rest inner body : List Char}
    (hbefore : ¬ "Response:".toList <:+: before) (hrest : skipBlank rest = '\x7b' :: inner)
    (hbody : upToBrace? inner = some body) :
    responseText? (before ++ ("Response:".toList ++ rest)) =
      some (String.ofList ('\x7b' :: body)) := by
  unfold responseText?
  rw [firstFrom?_append]
  · refine firstFrom?_of_some ?_
    rw [afterExact?_append, Option.bind_some, hrest]
    show (upToBrace? inner).map _ = _
    rw [hbody, Option.map_some]
  · intro front back hsplit hback
    have hno : ¬ "Response:".toList <+: back ++ ("Response:".toList ++ rest) := by
      intro hprefix
      refine hbefore ((prefix_of_prefix_append (by decide) hback hprefix).isInfix.trans ?_)
      rw [hsplit]
      exact (List.suffix_append front back).isInfix
    rw [afterExact?, if_neg (fun h => hno (List.isPrefixOf_iff_prefix.mp h)), Option.bind_none]

/-! ### Objects -/

/-- A text begins with a brace, and only its last closing brace ends a line, with nothing behind
it. -/
structure IsCutWhole (text : String) : Prop where
  opens : text.toList.head? = some '\x7b'
  closes : ∀ inner after, text.toList = inner ++ '\x7d' :: after → LineEnds after → after = []

/-- A text on one line that begins and ends with braces. -/
theorem isCutWhole_of_single_line {text : String} (hopens : text.toList.head? = some '\x7b')
    (hends : text.toList.getLast? = some '\x7d') (hline : '\n' ∉ text.toList) :
    IsCutWhole text := by
  refine ⟨hopens, ?_⟩
  intro inner after heq hafter
  rcases hafter with hblank | ⟨blanks, rest, rfl, -⟩
  · by_contra hne
    have hlast : after.getLast? = some '\x7d' := by
      rw [heq, List.getLast?_append, List.getLast?_cons_of_ne_nil hne] at hends
      simpa [List.getLast?_eq_some_getLast hne] using hends
    exact absurd (hblank _ (List.mem_of_getLast? hlast)) (by decide)
  · refine absurd ?_ hline
    rw [heq]
    simp

theorem isBlank_of_isSpace {c : Char} (h : Json.isSpace c = true) : Text.isBlank c = true := by
  simp only [Json.isSpace, Bool.or_eq_true, decide_eq_true_eq] at h
  rcases h with ((rfl | rfl) | rfl) | rfl <;> decide

/-- The response that is read where a text spells an object: the part of the text from its brace
to the first closing brace that ends a line. -/
theorem exists_responseText? {text : String} {before : List Char} {fields : Fields Value}
    (htext : Json.read? text = some (.object fields))
    (hbefore : ¬ "Response:".toList <:+: before) :
    ∃ blanks whole inner after, text.toList = blanks ++ '\x7b' :: whole ∧
      (∀ c ∈ blanks, Json.isSpace c = true) ∧ BreaksAt whole inner after ∧
      responseText? (before ++ ("Response:".toList ++ '\n' :: text.toList)) =
        some (String.ofList ('\x7b' :: (inner ++ ['\x7d']))) := by
  obtain ⟨blanks, front, behind, htoList, hblanks, hbehind⟩ := Json.exists_braces_of_read? htext
  have hline : LineEnds behind := Or.inl fun c hc => isBlank_of_isSpace (hbehind c hc)
  obtain ⟨body, hbody⟩ := exists_upToBrace? front hline
  obtain ⟨inner, after, hbreaks, hend⟩ := breaksAt_of_upToBrace? hbody
  have hskip : skipBlank ('\n' :: text.toList) = '\x7b' :: (front ++ '\x7d' :: behind) := by
    rw [skipBlank, htoList, List.dropWhile_cons_of_pos (by decide),
      List.dropWhile_append_of_pos fun c hc => isBlank_of_isSpace (hblanks c hc),
      List.dropWhile_cons_of_neg (by decide)]
  refine ⟨blanks, front ++ '\x7d' :: behind, inner, after, htoList, hblanks, hbreaks, ?_⟩
  rw [responseText?_append hbefore hskip hbody, hend]

/-- A call has the response of its line and what that spells. -/
theorem exists_read?_iff {s raw : String} {v : Value} (hv : Json.read? raw = some v) :
    (∃ call, BackendCall.read? s = some call ∧ call.rawResponse = some raw ∧
      call.response = v) ↔ responseText? s.toList = some raw := by
  unfold BackendCall.read?
  dsimp only
  constructor
  · rintro ⟨call, hcall, hraw, -⟩
    split at hcall
    · cases hcall
    · cases hcall
      exact hraw
  · intro hraw
    rw [if_neg]
    · refine ⟨_, rfl, hraw, ?_⟩
      dsimp only
      rw [hraw, Option.bind_some, hv]
      rfl
    · simp [BackendCall.isEmpty, hraw]

/-- **The objects that are read as a response.**  Behind the word, and a text in front of it that
does not hold the word, any spelling of an object is the response as it stands exactly when it
begins with its brace, ends with its last one, and no brace inside ends a line. -/
theorem BackendCall.read?_response_iff {text before : String} {fields : Fields Value}
    (htext : Json.read? text = some (.object fields))
    (hbefore : ¬ "Response:".toList <:+: before.toList) :
    (∃ call, BackendCall.read? (before ++ "Response:\n" ++ text) = some call ∧
      call.rawResponse = some text ∧ call.response = .object fields) ↔ IsCutWhole text := by
  have hline : (before ++ "Response:\n" ++ text).toList =
      before.toList ++ ("Response:".toList ++ '\n' :: text.toList) := by
    simp [String.toList_append]
  rw [exists_read?_iff htext, hline]
  obtain ⟨blanks, whole, inner, after, htoList, hblanks, hbreaks, hresponse⟩ :=
    exists_responseText? htext hbefore
  rw [hresponse, Option.some.injEq, ← String.toList_inj, String.toList_ofList]
  constructor
  · intro heq
    refine ⟨by rw [← heq, List.head?_cons], ?_⟩
    intro inner' after' hsplit hends
    -- the response is as long as the text, so nothing stands around it
    have hlength := congrArg List.length heq
    rw [htoList, hbreaks.split] at hlength
    simp only [List.length_cons, List.length_append, List.length_nil] at hlength
    have hblanks' : blanks = [] := by
      apply List.eq_nil_of_length_eq_zero
      omega
    rw [hblanks', List.nil_append] at htoList
    rw [htoList] at hsplit
    cases inner' with
    | nil => exact absurd (List.cons.inj hsplit).1 (by decide)
    | cons c inner' =>
      have hsplit' : whole = inner' ++ '\x7d' :: after' := (List.cons.inj hsplit).2
      have hle := hbreaks.first inner' after' hsplit' hends
      have hlength' := congrArg List.length (hbreaks.split.symm.trans hsplit')
      simp only [List.length_cons, List.length_append] at hlength'
      apply List.eq_nil_of_length_eq_zero
      omega
  · intro hcut
    have hblanks' : blanks = [] := by
      cases blanks with
      | nil => rfl
      | cons c blanks =>
        have hopens := hcut.opens
        rw [htoList, List.cons_append, List.head?_cons, Option.some.injEq] at hopens
        have hspace := hblanks c List.mem_cons_self
        rw [hopens] at hspace
        exact absurd hspace (by decide)
    rw [hblanks', List.nil_append, hbreaks.split] at htoList
    have hafter : after = [] := hcut.closes ('\x7b' :: inner) after htoList hbreaks.ends
    rw [htoList, hafter]

/-- A response on one line with an object inside the object. -/
theorem BackendCall.read?_response_iff_nested :
    Json.read? "\x7b\"a\": \x7b\"b\": 1\x7d\x7d" =
        some (.object [("a", .object [("b", .int 1)])]) ∧
      ¬ "Response:".toList <:+: "Status: 200\n".toList ∧
      ∃ call, BackendCall.read? ("Status: 200\n" ++ "Response:\n" ++
          "\x7b\"a\": \x7b\"b\": 1\x7d\x7d") = some call ∧
        call.rawResponse = some "\x7b\"a\": \x7b\"b\": 1\x7d\x7d" ∧
        call.response = .object [("a", .object [("b", .int 1)])] := by
  have htext : Json.read? "\x7b\"a\": \x7b\"b\": 1\x7d\x7d" =
      some (.object [("a", .object [("b", .int 1)])]) := by decide +kernel
  have hbefore : ¬ "Response:".toList <:+: "Status: 200\n".toList := by decide +kernel
  have hcut : IsCutWhole "\x7b\"a\": \x7b\"b\": 1\x7d\x7d" :=
    isCutWhole_of_single_line (by decide +kernel) (by decide +kernel) (by decide +kernel)
  exact ⟨htext, hbefore, (BackendCall.read?_response_iff htext hbefore).mpr hcut⟩

/-- The response breaks off behind the inner object if its brace ends a line, and what is left of
it spells nothing. -/
theorem BackendCall.read?_response_cut :
    Json.read? "\x7b\"a\": \x7b\n\x7d\n\x7d" = some (.object [("a", .object [])]) ∧
      (BackendCall.read? ("Response:\n" ++ "\x7b\"a\": \x7b\n\x7d\n\x7d")).map (fun call =>
        (call.rawResponse, call.response)) = some (some "\x7b\"a\": \x7b\n\x7d", .null) := by
  decide +kernel

end TrustFramework
