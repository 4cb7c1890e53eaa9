import Walkthrough.Proofs.Json.Reading

/-!
# A text inside another

A text that reads as a document reads as the same one where it stands in another text:
its tokens are found there (`Token.lexed_append`), and they take the reader from the start
of a value to its end over whatever containers are unfinished (`Document.foldlM_within`).
`Document.read?_pair` is the case of the second field of a record.
-/

namespace Walkthrough.Json

/-! ## Tokens -/

theorem takeBody?_append_right {t body after : Text} (h : takeBody? t = some (body, after))
    (rest : Text) : takeBody? (t ++ rest) = some (body, after ++ rest) := by
  fun_induction takeBody? t generalizing body with
  | case1 => cases h
  | case2 t =>
    cases h
    rfl
  | case3 c t ih =>
    obtain ⟨⟨found, left⟩, taken, same⟩ := Option.map_eq_some_iff.1 h
    cases same
    rw [List.cons_append, List.cons_append, takeBody?, ih taken]
    rfl
  | case4 c t quote escape ih =>
    obtain ⟨⟨found, left⟩, taken, same⟩ := Option.map_eq_some_iff.1 h
    cases same
    have backslash : c ≠ '\\' := by
      rintro rfl
      cases t with
      | nil => cases taken
      | cons d t => exact escape d t rfl rfl
    rw [List.cons_append, takeBody?_cons quote backslash, ih taken]
    rfl

theorem eq_append_of_takeBody? {t body after : Text} (h : takeBody? t = some (body, after)) :
    t = body ++ '"' :: after := by
  fun_induction takeBody? t generalizing body with
  | case1 => cases h
  | case2 t =>
    cases h
    rfl
  | case3 c t ih =>
    obtain ⟨⟨found, left⟩, taken, same⟩ := Option.map_eq_some_iff.1 h
    cases same
    rw [ih taken]
    rfl
  | case4 c t quote escape ih =>
    obtain ⟨⟨found, left⟩, taken, same⟩ := Option.map_eq_some_iff.1 h
    cases same
    rw [ih taken]
    rfl

namespace Token

/-- How a token comes to be taken off a text. -/
inductive Taken : Text → Token → Text → Prop where
  | string {t body after : Text} (taken : takeBody? t = some (body, after))
      (formed : isBody body = true) : Taken ('"' :: t) (.string body) after
  | fixed {token : Token} (h : token ∈ fixed) (after : Text) :
      Taken (token.text ++ after) token after
  | number {t after : Text} {l : NumberLiteral} (taken : NumberLiteral.take? t = some (l, after)) :
      Taken t (.number l.text) after

theorem taken_of_take? {t after : Text} {token : Token} (h : take? t = some (token, after)) :
    Taken t token after := by
  unfold take? at h
  split at h
  · cases h
  · split at h
    · cases h
    · rename_i taken
      obtain ⟨formed, same⟩ := Option.ite_none_right_eq_some.1 h
      cases same
      exact .string taken formed
  · split at h
    · rename_i found
      cases h
      have starts := List.find?_some found
      obtain ⟨after, rfl⟩ := List.isPrefixOf_iff_prefix.1 starts
      rw [List.drop_left]
      exact .fixed (List.mem_of_find?_eq_some found) after
    · obtain ⟨⟨l, left⟩, taken, same⟩ := Option.map_eq_some_iff.1 h
      cases same
      exact .number taken

theorem Taken.eq_append {t after : Text} {token : Token} (h : Taken t token after) :
    t = token.text ++ after ∧ token.text ≠ [] := by
  cases h with
  | string taken =>
    rw [eq_append_of_takeBody? taken]
    simp [text]
  | fixed member =>
    obtain ⟨c, rest, text_eq, -⟩ := fixed_head member
    exact ⟨rfl, by rw [text_eq]; exact List.cons_ne_nil c rest⟩
  | number taken =>
    refine ⟨(NumberLiteral.splits_take? taken).1, ?_⟩
    exact NumberLiteral.text_ne_nil_of_take? taken

/-- More text does not change which token is taken, if no number goes on with it. -/
theorem Taken.take?_append {t after : Text} {token : Token} (h : Taken t token after) {rest : Text}
    (ends : EndsNumber rest) : take? (t ++ rest) = some (token, after ++ rest) := by
  cases h with
  | string taken formed =>
    simp only [List.cons_append, take?, takeBody?_append_right taken, formed, if_true]
  | fixed member =>
    rw [List.append_assoc]
    exact take?_fixed member (after ++ rest)
  | number taken =>
    obtain ⟨c, more, rfl, literal_char⟩ := NumberLiteral.exists_cons_of_take? taken
    rw [List.cons_append, take?_of_isLiteralChar literal_char, ← List.cons_append,
      NumberLiteral.take?_append ends, taken]
    rfl

/-- The tokens of a text are found where it stands in front of another. -/
theorem lexed_append {n : Nat} {t : Text} {tokens : List Token} (h : lexUpTo n t = some tokens)
    {after : Text} {rest : List Token} (ends : EndsNumber after) (later : Lexed after rest) :
    Lexed (t ++ after) (tokens ++ rest) := by
  induction n generalizing t tokens with
  | zero =>
    obtain ⟨empty, same⟩ := Option.ite_none_right_eq_some.1 h
    cases same
    rwa [List.isEmpty_iff.1 empty]
  | succ n ih =>
    have split := List.takeWhile_append_dropWhile (p := isSpace) (l := t)
    have blank : ∀ c ∈ t.takeWhile isSpace, isSpace c = true :=
      List.all_eq_true.1 List.all_takeWhile
    have head := List.head?_dropWhile_not isSpace t
    rw [lexUpTo] at h
    rw [← split, List.append_assoc]
    apply Lexed.spaces blank
    generalize t.dropWhile isSpace = start at h head
    split at h
    · cases h
      exact later
    · split at h
      · cases h
      · rename_i token left taken
        obtain ⟨others, lexed, same⟩ := Option.map_eq_some_iff.1 h
        cases same
        have taken := taken_of_take? taken
        obtain ⟨start_eq, some_text⟩ := taken.eq_append
        obtain ⟨c, more, text_eq⟩ := List.exists_cons_of_ne_nil some_text
        have read := taken.take?_append ends
        rw [start_eq, List.append_assoc] at read ⊢
        refine (ih lexed).cons ⟨c, more, text_eq, ?_⟩ read
        rw [start_eq, text_eq] at head
        simpa using head

/-- Tokens that are no numbers may stand in front of any text. -/
theorem Lexed.prepend {first : List Token}
    (h : ∀ token ∈ first, token ∈ fixed ∨ ∃ t, token = .string (escape t)) {after : Text}
    {rest : List Token} (later : Lexed after rest) :
    Lexed (first.flatMap text ++ after) (first ++ rest) := by
  induction first with
  | nil => exact later
  | cons token first ih =>
    obtain ⟨here, others⟩ := List.forall_mem_cons.1 h
    rw [List.flatMap_cons, List.append_assoc]
    rcases here with member | ⟨t, rfl⟩
    · exact (ih others).cons (Standard.fixed member).head (take?_fixed member _)
    · exact (ih others).cons (Standard.string t).head (take?_string t _)

end Token

/-! ## Documents -/

namespace Document

/-- A reader with more unfinished containers around those that it is in. -/
def Reader.within (around : List Unfinished) : Reader → Reader
  | .value outer => .value (outer ++ around)
  | .firstItem outer => .firstItem (outer ++ around)
  | .firstName outer => .firstName (outer ++ around)
  | .name members outer => .name members (outer ++ around)
  | .colon members key outer => .colon members key (outer ++ around)
  | .afterValue item outer => .afterValue item (outer ++ around)

section
variable (around : List Unfinished) {r r' : Reader}

theorem Reader.enter_within {outer : List Unfinished} {token : Token}
    (h : enter outer token = some r') :
    enter (outer ++ around) token = some (r'.within around) := by
  cases token <;> cases h <;> rfl

theorem Reader.leave_within {item : Document} {outer : List Unfinished} {token : Token}
    (h : leave item outer token = some r') :
    leave item (outer ++ around) token = some (r'.within around) := by
  unfold leave at h
  split at h
  all_goals cases h
  all_goals rfl

/-- A reader does not look at containers around the innermost one that it has left. -/
theorem Reader.step_within {token : Token} (h : r.step token = some r') :
    (r.within around).step token = some (r'.within around) := by
  cases r with
  | value outer => exact enter_within around h
  | firstItem outer =>
    by_cases closes : token = .closeArray
    · subst closes
      cases h
      rfl
    · have enters {outer : List Unfinished} :
          (firstItem outer).step token = enter (.array [] :: outer) token := by
        cases token <;> first | rfl | exact absurd rfl closes
      rw [enters] at h
      rw [within, enters]
      exact enter_within around h
  | firstName outer => cases token <;> cases h <;> rfl
  | name members outer =>
    cases token <;> cases h
    rfl
  | colon members key outer =>
    cases token <;> cases h
    rfl
  | afterValue item outer => exact leave_within around h

theorem foldlM_within {tokens : List Token} (h : tokens.foldlM Reader.step r = some r') :
    tokens.foldlM Reader.step (r.within around) = some (r'.within around) := by
  induction tokens generalizing r with
  | nil =>
    cases h
    rfl
  | cons token tokens ih =>
    rw [List.foldlM_cons] at h
    obtain ⟨next, stepped, h⟩ := Option.bind_eq_some_iff.1 h
    rw [foldlM_cons_of_step (Reader.step_within around stepped)]
    exact ih h

end

theorem foldlM_of_ofTokens? {tokens : List Token} {document : Document}
    (h : ofTokens? tokens = some document) (around : List Unfinished) :
    tokens.foldlM Reader.step (.value around) = some (.afterValue document around) := by
  unfold ofTokens? at h
  split at h
  · rename_i found
    cases h
    exact foldlM_within around found
  · cases h

/-- A document in the second field of a record, after a text in the first. -/
theorem read?_pair {first second t params : Text} {document : Document}
    (plain_first : escape first = first) (plain_t : escape t = t)
    (plain_second : escape second = second) (h : read? params = some document) :
    read? ((['\x7b', '"'] ++ first ++ ['"', ':', '"']) ++ t ++
        (['"', ',', '"'] ++ second ++ ['"', ':']) ++ params ++ ['\x7d']) =
      some (.object [(first, .string t), (second, document)]) := by
  let front : List Token := [.openObject, .string first, .colon, .string t, .comma, .string second,
    .colon]
  obtain ⟨tokens, lexed, read⟩ : ∃ tokens, Token.lex params = some tokens ∧
      ofTokens? tokens = some document := by
    unfold read? at h
    split at h
    · cases h
    · exact ⟨_, ‹_›, h⟩
  have close : Token.closeObject ∈ Token.fixed := by decide
  have closing : Token.Lexed ['\x7d'] [.closeObject] :=
    Token.Lexed.nil.cons (Token.Standard.fixed close).head rfl
  have inner : Token.Lexed (params ++ ['\x7d']) (tokens ++ [.closeObject]) :=
    Token.lexed_append lexed (.cons rfl []) closing
  have plain : ∀ token ∈ front, token ∈ Token.fixed ∨ ∃ t, token = .string (escape t) := by
    simp only [front, List.forall_mem_cons]
    exact ⟨.inl (by decide), .inr ⟨first, by rw [plain_first]⟩, .inl (by decide),
      .inr ⟨t, by rw [plain_t]⟩, .inl (by decide), .inr ⟨second, by rw [plain_second]⟩,
      .inl (by decide), List.forall_mem_nil _⟩
  have whole := inner.prepend plain
  have text_eq : front.flatMap Token.text ++ (params ++ ['\x7d']) =
      (['\x7b', '"'] ++ first ++ ['"', ':', '"']) ++ t ++
        (['"', ',', '"'] ++ second ++ ['"', ':']) ++ params ++ ['\x7d'] := by
    simp [front, Token.text]
  have entered : front.foldlM Reader.step (.value []) =
      some (.value [.object [(first, .string t)] second]) := rfl
  rw [text_eq] at whole
  rw [read?, Token.lex, whole _ (Nat.le_refl _)]
  simp only [ofTokens?, foldlM_append_of_foldlM entered,
    foldlM_append_of_foldlM (foldlM_of_ofTokens? read _)]
  rfl

end Document

end Walkthrough.Json
