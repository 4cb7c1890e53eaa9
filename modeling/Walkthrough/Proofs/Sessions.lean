import Walkthrough.Service.Session

/-!
# What a session comes to

A connection is served line by line, with an early end at a line that is not UTF-8; what
comes of it can be read off the whole stream.

* `pieces_isCut` says what cutting a stream after each line feed means, and
  `pieces_of_ne` that a session reads the pieces in their order;
* `serve_eq` is the loop in closed form, by induction on the lines (`line_induction`);
* `pieces_append` and `validTexts_append` split a stream behind a line feed;
* `serve_requests` is a whole session, and two sessions one after the other.
-/

namespace Walkthrough.Session

/-- The pieces of a stream that is cut after each line feed.  The last one may lack it, and
none is empty. -/
structure IsCut (bytes : List UInt8) (cut : List (List UInt8)) : Prop where
  flatten : cut.flatten = bytes
  nonempty : ∀ piece ∈ cut, piece ≠ []
  inside : ∀ piece ∈ cut, lineFeed ∉ piece.dropLast
  ended : ∀ piece ∈ cut.dropLast, piece.getLast? = some lineFeed

/-! ## One line -/

section
variable {bytes : List UInt8}

theorem takeLine_append (bytes : List UInt8) :
    (takeLine bytes).1 ++ (takeLine bytes).2 = bytes := by
  induction bytes with
  | nil => rfl
  | cons byte rest ih =>
    simp only [takeLine]
    split
    · rfl
    · exact congrArg (byte :: ·) ih

theorem takeLine_ne_nil (h : bytes ≠ []) : (takeLine bytes).1 ≠ [] := by
  cases bytes with
  | nil => exact absurd rfl h
  | cons byte rest =>
    simp only [takeLine]
    split <;> exact List.cons_ne_nil _ _

theorem takeLine_inside (bytes : List UInt8) : lineFeed ∉ (takeLine bytes).1.dropLast := by
  induction bytes with
  | nil => exact List.not_mem_nil
  | cons byte rest ih =>
    simp only [takeLine]
    split
    · exact List.not_mem_nil
    · rename_i differs
      cases line : (takeLine rest).1 with
      | nil => exact List.not_mem_nil
      | cons next line' =>
        rw [line] at ih
        rw [List.dropLast_cons_cons, List.mem_cons, not_or]
        exact ⟨Ne.symm differs, ih⟩

/-- A line that is not the last one has its line feed. -/
theorem takeLine_ended (h : (takeLine bytes).2 ≠ []) :
    (takeLine bytes).1.getLast? = some lineFeed := by
  induction bytes with
  | nil => exact absurd rfl h
  | cons byte rest ih =>
    simp only [takeLine] at h ⊢
    split at h
    · rename_i feed
      rw [if_pos feed, feed]
      rfl
    · rename_i other
      rw [if_neg other, List.getLast?_cons, ih h]
      rfl

/-- Induction over the lines of a stream. -/
theorem line_induction {motive : List UInt8 → Prop} (nil : motive [])
    (line : ∀ bytes, bytes ≠ [] → motive (takeLine bytes).2 → motive bytes) (bytes : List UInt8) :
    motive bytes :=
  if h : bytes = [] then h ▸ nil else line bytes h (line_induction nil line _)
termination_by bytes.length
decreasing_by exact length_takeLine_lt h

theorem pieces_of_ne (h : bytes ≠ []) :
    pieces bytes = (takeLine bytes).1 :: pieces (takeLine bytes).2 := by
  induction bytes with
  | nil => exact absurd rfl h
  | cons byte rest ih =>
    simp only [pieces, takeLine]
    split
    · rfl
    · by_cases ends : rest = []
      · rw [ends]
        rfl
      · rw [ih ends]

end

theorem IsCut.cons {line left : List UInt8} {cut : List (List UInt8)} (nonempty : line ≠ [])
    (inside : lineFeed ∉ line.dropLast) (ended : left ≠ [] → line.getLast? = some lineFeed)
    (h : IsCut left cut) : IsCut (line ++ left) (line :: cut) := by
  constructor
  case flatten => rw [List.flatten_cons, h.flatten]
  case nonempty => exact List.forall_mem_cons.2 ⟨nonempty, h.nonempty⟩
  case inside => exact List.forall_mem_cons.2 ⟨inside, h.inside⟩
  case ended =>
    cases cut with
    | nil => exact List.forall_mem_nil _
    | cons piece others =>
      have more : left ≠ [] := by
        rw [← h.flatten, List.flatten_cons]
        exact List.append_ne_nil_of_left_ne_nil (h.nonempty piece List.mem_cons_self) _
      rw [List.dropLast_cons_cons]
      exact List.forall_mem_cons.2 ⟨ended more, h.ended⟩

theorem pieces_isCut (bytes : List UInt8) : IsCut bytes (pieces bytes) := by
  induction bytes using line_induction with
  | nil => exact ⟨rfl, List.forall_mem_nil _, List.forall_mem_nil _, List.forall_mem_nil _⟩
  | line bytes h ih =>
    have cut := ih.cons (takeLine_ne_nil h) (takeLine_inside bytes) takeLine_ended
    rwa [takeLine_append, ← pieces_of_ne h] at cut

/-! ## All lines -/

/-- The loop in closed form. -/
theorem serve_eq (runs : Nat → Run) (answered : Nat) (bytes : List UInt8) :
    serve runs answered bytes =
      ⟨(requestLines bytes).mapIdx fun n line => Command.reply (runs (answered + n)) line,
        isClean bytes⟩ := by
  induction bytes using line_induction generalizing answered with
  | nil =>
    rw [serve, dif_pos rfl]
    rfl
  | line bytes h ih =>
    rw [serve, dif_neg h, requestLines, isClean, pieces_of_ne h]
    cases found : Text.ofUtf8? (takeLine bytes).1 with
    | none => simp [validTexts, found]
    | some line =>
      by_cases blank : (Text.trim line).isEmpty = true
      · simp [validTexts, found, blank, ih, requestLines, isClean]
      · simp [validTexts, found, blank, ih, requestLines, isClean, List.mapIdx_cons,
          Nat.add_assoc, Nat.add_comm 1]

theorem isClean_iff {bytes : List UInt8} :
    isClean bytes = true ↔ ∀ piece ∈ pieces bytes, ∃ t, piece = Text.toUtf8 t := by
  simp only [isClean, List.all_eq_true, Option.isSome_iff_exists, Text.ofUtf8?_eq_some_iff]

/-! ## A stream in two parts -/

theorem pieces_append {first : List UInt8} (h : first.getLast? = some lineFeed)
    (later : List UInt8) : pieces (first ++ later) = pieces first ++ pieces later := by
  induction first with
  | nil => cases h
  | cons byte rest ih =>
    by_cases ends : rest = []
    · rw [ends] at h ⊢
      obtain rfl : byte = lineFeed := Option.some.inj h
      rfl
    · rw [List.getLast?_cons_of_ne_nil ends] at h
      simp only [List.cons_append, pieces, ih h]
      split
      · rfl
      · rw [pieces_of_ne ends]
        rfl

theorem validTexts_append (first later : List (List UInt8)) :
    validTexts (first ++ later) =
      if first.all fun piece => (Text.ofUtf8? piece).isSome then
        validTexts first ++ validTexts later
      else validTexts first := by
  induction first with
  | nil => rfl
  | cons piece first ih =>
    cases found : Text.ofUtf8? piece with
    | none => simp [validTexts, found]
    | some t =>
      simp only [List.cons_append, validTexts, List.all_cons, found, ih, Option.isSome_some,
        Bool.true_and]
      split <;> rfl

theorem requestLines_append {first : List UInt8} (h : first.getLast? = some lineFeed)
    (later : List UInt8) :
    requestLines (first ++ later) =
      if isClean first then requestLines first ++ requestLines later else requestLines first := by
  rw [requestLines, pieces_append h, validTexts_append, ← isClean]
  split
  · rw [List.map_append, List.filter_append]
    rfl
  · rfl

theorem isClean_append {first : List UInt8} (h : first.getLast? = some lineFeed)
    (later : List UInt8) : isClean (first ++ later) = (isClean first && isClean later) := by
  rw [isClean, pieces_append h, List.all_append]
  rfl

/-- **What a session comes to.**  The stream is cut after each line feed.  Of the pieces
before the first one that is not UTF-8, those that are not blank are answered, trimmed, in
their order; and the connection ends without an error if all pieces are UTF-8.  After a
stream that ends with a line feed a session goes on as if it began there, unless it has
ended with an error, and so no request has a say in the answer to another. -/
theorem serve_requests (runs : Nat → Run) (bytes : List UInt8) :
    IsCut bytes (pieces bytes) ∧
    (serve runs 0 bytes).replies =
      (((validTexts (pieces bytes)).map Text.trim).filter (!·.isEmpty)).mapIdx
        (fun n line => Command.reply (runs n) line) ∧
    ((serve runs 0 bytes).isClean = true ↔
      ∀ piece ∈ pieces bytes, ∃ t, piece = Text.toUtf8 t) ∧
    (bytes.getLast? = some lineFeed → ∀ later,
      serve runs 0 (bytes ++ later) =
        let first := serve runs 0 bytes
        let rest := serve runs first.replies.length later
        if first.isClean then ⟨first.replies ++ rest.replies, rest.isClean⟩ else first) := by
  refine ⟨pieces_isCut bytes, ?_, ?_, ?_⟩
  · simp only [serve_eq, Nat.zero_add]
    rfl
  · rw [serve_eq, isClean_iff]
  · intro ended later
    simp only [serve_eq, requestLines_append ended, isClean_append ended, List.length_mapIdx,
      Nat.zero_add]
    cases isClean bytes with
    | false => rfl
    | true => simp [List.mapIdx_append, Nat.add_comm]

end Walkthrough.Session
