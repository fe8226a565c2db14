import LambdaDiagram.Proofs.Grammar.Places

/-! Where a rejection points. What the reader remembers lies before the token at hand, so the span of
a rejection is never empty and stays inside of the text. A parenthesis that is never closed is the
last one left open, and one that closes nothing stands just where the text could have ended. -/
namespace LambdaDiagram

open Reader

namespace ParseError

/-- The rejection points at one or more characters of a text of the given
length, unless it is about the end of the text or about the text as a whole. -/
def IsPlaced (length : Nat) : ParseError → Prop
  | .missingDotAtEnd stop => stop = length
  | .emptyText stop => stop = length
  | e => e.span.start < e.span.stop ∧ e.span.stop ≤ length

namespace IsPlaced

variable {length : Nat} {e : ParseError} (hPlaced : e.IsPlaced length)

include hPlaced

theorem start_le_stop : e.span.start ≤ e.span.stop := by
  cases e with
  | missingDotAtEnd stop => exact Nat.le_succ stop
  | emptyText stop => exact Nat.zero_le stop
  | _ => exact Nat.le_of_lt hPlaced.1

theorem start_lt_stop (hLength : 0 < length) : e.span.start < e.span.stop := by
  cases e with
  | missingDotAtEnd stop => exact Nat.lt_succ_self stop
  | emptyText stop =>
      cases hPlaced
      exact hLength
  | _ => exact hPlaced.1

/-- A span ends inside of the text. Only a dot that is missing at the end is
looked for behind it. -/
theorem stop_le (hEnd : ∀ stop, e ≠ .missingDotAtEnd stop) : e.span.stop ≤ length := by
  cases e with
  | missingDotAtEnd stop => exact absurd rfl (hEnd stop)
  | emptyText stop => exact Nat.le_of_eq hPlaced
  | _ => exact hPlaced.2

end IsPlaced

end ParseError

namespace Reader

/-- A refused token is blamed on itself or together with a remembered place,
and these places lie before the token. -/
theorem isPlaced_of_step_error {reader : Reader} {lexeme : Lexeme} {e : ParseError} {length : Nat}
    (hBefore : ∀ index ∈ reader.indices, index < lexeme.start)
    (hLexeme : lexeme.start < lexeme.stop) (hLength : lexeme.stop ≤ length)
    (hError : reader.step lexeme = .error e) : e.IsPlaced length := by
  have hInside : lexeme.start < length := Nat.lt_of_lt_of_le hLexeme hLength
  rcases reader with ⟨frames, acc | ⟨lambda, params, before⟩⟩
  · cases hToken : lexeme.token with
    | ident name => simp [step, hToken] at hError
    | lparen => simp [step, hToken] at hError
    | lambda => simp [step, hToken] at hError
    | dot | other char =>
        simp only [step, hToken, Except.error.injEq] at hError
        subst hError
        exact ⟨hLexeme, hLength⟩
    | rparen =>
        simp only [step, hToken] at hError
        rcases close_error hError with ⟨lambda, hMem, rfl⟩ | ⟨opened, hMem, rfl⟩ | rfl
        · exact ⟨hBefore lambda hMem, Nat.le_of_lt hInside⟩
        · exact ⟨Nat.lt_succ_of_lt (hBefore opened hMem), hInside⟩
        · exact ⟨Nat.lt_succ_self _, hInside⟩
  · cases hToken : lexeme.token with
    | ident name => simp [step, hToken] at hError
    | dot =>
        by_cases hEmpty : params = []
        · simp only [step, hToken, hEmpty, List.isEmpty_nil, if_true, Except.error.injEq] at hError
          subst hError
          exact ⟨Nat.lt_succ_self _, hInside⟩
        · simp [step, hToken, hEmpty] at hError
    | lparen | rparen | lambda | other char =>
        simp only [step, hToken, Except.error.injEq] at hError
        subst hError
        exact ⟨hLexeme, hLength⟩

/-- What can be missing at the end of a text, with the place that it is
missing for. -/
theorem finish_error_cases {reader : Reader} {length : Nat} {e : ParseError}
    (hError : reader.finish length = .error e) :
    e = .missingDotAtEnd length ∨ (∃ lambda ∈ reader.indices, e = .emptyBody lambda length) ∨
      (∃ innermost outer, openParens reader.frames = innermost :: outer ∧
        e = .unclosedParen innermost) ∨ e = .emptyText length := by
  rcases reader with ⟨frames, acc | ⟨lambda, params, before⟩⟩
  · simp only [finish] at hError
    cases hEnd : endBodies length frames acc with
    | error reason =>
        rw [hEnd] at hError
        cases hError
        exact Or.inr (Or.inl (endBodies_error hEnd))
    | ok ended =>
        have hOpened := openParens_endBodies hEnd
        rw [hEnd] at hError
        simp only [bind, Except.bind] at hError
        split at hError
        next opened before outer acc =>
          cases hError
          exact Or.inr (Or.inr (Or.inl ⟨opened, openParens outer, hOpened.symm, rfl⟩))
        next => cases hError
        next =>
          cases hError
          exact Or.inr (Or.inr (Or.inr rfl))
  · cases hError
    exact Or.inl rfl

/-- What is missing at the end is blamed on a remembered place or on the end
itself. -/
theorem isPlaced_of_finish_error {reader : Reader} {length : Nat} {e : ParseError}
    (hBefore : ∀ index ∈ reader.indices, index < length)
    (hError : reader.finish length = .error e) : e.IsPlaced length := by
  rcases finish_error_cases hError with rfl | ⟨lambda, hMem, rfl⟩ | ⟨opened, outer, hOpen, rfl⟩ | rfl
  · rfl
  · exact ⟨hBefore lambda hMem, Nat.le_refl _⟩
  · have hMem : opened ∈ openParens reader.frames := by
      rw [hOpen]
      exact List.mem_cons_self
    have hOpened :=
      hBefore opened (mem_indices_of_mem_frames (mem_index_of_mem_openParens hMem))
    exact ⟨Nat.lt_succ_self _, hOpened⟩
  · rfl

/-- A closing parenthesis closes nothing just where the text could end: after
a whole expression, or before anything has been read. -/
theorem step_unmatchedClose_iff {reader : Reader} {lexeme : Lexeme} {closed : Nat} :
    reader.step lexeme = .error (.unmatchedClose closed) ↔
      lexeme.token = .rparen ∧ closed = lexeme.start ∧
        ((∃ t, reader.finish lexeme.start = .ok t) ∨
          reader.finish lexeme.start = .error (.emptyText lexeme.start)) := by
  rcases reader with ⟨frames, acc | ⟨lambda, params, before⟩⟩
  · cases hToken : lexeme.token with
    | rparen =>
        simp only [step, hToken, close, finish, true_and]
        cases hEnd : endBodies lexeme.start frames acc with
        | error reason =>
            obtain ⟨lambda, -, rfl⟩ := endBodies_error hEnd
            simp [bind, Except.bind]
        | ok ended =>
            obtain ⟨-, hNoBody⟩ := endBodies_ok hEnd
            rcases ended with ⟨_ | ⟨⟨opened, before⟩ | ⟨lambda, params, before⟩, outer⟩, acc'⟩
            · cases acc' <;> simp [bind, Except.bind, eq_comm]
            · cases acc' <;> simp [bind, Except.bind]
            · exact absurd rfl (hNoBody lambda params before outer)
    | _ => simp [step, hToken]
  · cases hToken : lexeme.token with
    | dot => by_cases hEmpty : params = [] <;> simp [step, hToken, hEmpty]
    | _ => simp [step, hToken, finish]

end Reader

namespace Term

/-- Every rejection is placed, be it of a token or at the end: the reader
remembers places of tokens only, and these come in the order of the text. -/
theorem isPlaced_of_parse_error {text : String} {e : ParseError} (hError : parse text = .error e) :
    e.IsPlaced text.length := by
  have hTiles : Lexeme.Tiles 0 text.toList (Lexeme.scan text) :=
    Lexeme.tiles_scanFrom 0 text.toList
  rcases parse_error_cases hError with hRefused | ⟨reader, hReads, hFinish⟩
  · obtain ⟨before, lexeme, after, reader, hScan, hReads, hStep⟩ := foldlM_step_error hRefused
    have hMem : lexeme ∈ Lexeme.scan text := by
      rw [hScan]
      exact List.mem_append_right _ List.mem_cons_self
    obtain ⟨hLexeme, hLength⟩ := Lexeme.start_lt_stop_of_mem_scan hMem
    refine isPlaced_of_step_error ?_ hLexeme hLength hStep
    intro index hIndex
    obtain ⟨earlier, hEarlier, rfl⟩ := exists_start_of_mem_indices hReads hIndex
    have hOrder := hTiles.pairwise
    rw [hScan, List.pairwise_append] at hOrder
    exact (hOrder.2.2 earlier hEarlier lexeme List.mem_cons_self).1
  · apply isPlaced_of_finish_error ?_ hFinish
    intro index hIndex
    obtain ⟨lexeme, hMem, rfl⟩ := exists_start_of_mem_indices hReads hIndex
    obtain ⟨hLexeme, hLength⟩ := Lexeme.start_lt_stop_of_mem_scan hMem
    omega

/-- A parenthesis is reported as never closed if it is the last one that is
left open; then each closing parenthesis of the text has its partner. A
refused token is never blamed on an open parenthesis, since the text could
still close it. -/
theorem leftOpen_of_parse_unclosedParen {text : String} {opened : Nat}
    (hError : parse text = .error (.unclosedParen opened)) :
    Text.LeftOpen text.toList opened ∧
      (∀ index, Text.LeftOpen text.toList index → index ≤ opened) ∧
      ∀ index, text.toList[index]? = some ')' → Text.Paired text.toList index := by
  rcases parse_error_cases hError with hRefused | ⟨reader, hReads, hFinish⟩
  · obtain ⟨index, hDeadEnd⟩ := exists_deadEnd hRefused
    cases hDeadEnd.blamed with
    | first hKind => simp [ParseError.kind] at hKind
  · have hNested := nested_of_reads hReads
    have hOpened : ∃ outer, openParens reader.frames = opened :: outer := by
      rcases finish_error_cases hFinish with
        hOther | ⟨lambda, -, hOther⟩ | ⟨innermost, outer, hOpen, hSame⟩ | hOther
      · cases hOther
      · cases hOther
      · cases hSame
        exact ⟨outer, hOpen⟩
      · cases hOther
    obtain ⟨outer, hOpen⟩ := hOpened
    obtain ⟨hInnermost, hLast⟩ := (hOpen ▸ hNested).last_leftOpen
    exact ⟨hInnermost, hLast, fun index hClose => hNested.paired_of_close hClose⟩

theorem parse_of_reads {text : String} {reader : Reader}
    (hReads : start.Reads (Lexeme.scan text) reader) : parse text = reader.finish text.length := by
  rw [parse, hReads]
  rfl

/-- The tokens of a blank text or of an expression are all taken. The end of
the text is then reached with a term, or without any operand. -/
theorem exists_reads_of_blank_or_ok {text : String}
    (hText : Text.isBlankText text = true ∨ ∃ t, parse text = .ok t) :
    ∃ reader, start.Reads (Lexeme.scan text) reader ∧
      ((∃ t, reader.finish text.length = .ok t) ∨
        reader.finish text.length = .error (.emptyText text.length)) := by
  rcases hText with hBlank | ⟨t, hParse⟩
  · rw [Lexeme.scan_of_isBlankText hBlank]
    exact ⟨start, Reads.nil start, Or.inr rfl⟩
  · obtain ⟨reader, hReads, hFinish⟩ := parse_eq_ok_iff_reads.mp hParse
    exact ⟨reader, hReads, Or.inl ⟨t, hFinish⟩⟩

/-- A closing parenthesis without a partner is reported exactly if the text
before it is blank or an expression by itself, for the reader before the
refused token is the one that this text ends with. What stands behind it does
not matter. -/
theorem parse_eq_unmatchedClose_iff {text : String} {closed : Nat} :
    parse text = .error (.unmatchedClose closed) ↔
      text.toList[closed]? = some ')' ∧ (Text.isBlankText (firstChars closed text) = true ∨
        ∃ t, parse (firstChars closed text) = .ok t) := by
  constructor
  · intro hError
    rcases parse_error_cases hError with hRefused | ⟨reader, hReads, hFinish⟩
    · obtain ⟨before, lexeme, after, reader, hScan, hReads, hStep⟩ := foldlM_step_error hRefused
      obtain ⟨hToken, hStart, hFinish⟩ := step_unmatchedClose_iff.mp hStep
      obtain ⟨front, c, back, hText, hPlace, hSymbol, hFront, -⟩ :=
        Lexeme.cutAt_of_scanFrom_eq hScan (by simp [hToken])
      rw [Nat.zero_add] at hPlace
      rw [hStart, hPlace]
      rw [hPlace] at hFinish
      obtain rfl : c = ')' := Lexeme.eq_of_symbol_eq_rparen (hSymbol.symm.trans hToken)
      have hParse : parse (String.ofList front) = reader.finish front.length := by
        rw [← String.length_ofList]
        apply parse_of_reads
        rwa [Lexeme.scan, String.toList_ofList, hFront]
      refine ⟨by simp [hText], ?_⟩
      rw [firstChars_of_eq_append hText, hParse]
      rcases hFinish with hWhole | hNothing
      · exact Or.inr hWhole
      · exact Or.inl (parse_eq_emptyText_iff.mp (hParse.trans hNothing)).1
    · rcases finish_error_cases hFinish with
        hOther | ⟨lambda, -, hOther⟩ | ⟨innermost, outer, -, hOther⟩ | hOther <;> cases hOther
  · rintro ⟨hClose, hBefore⟩
    obtain ⟨hLess, hChar⟩ := List.getElem?_eq_some_iff.mp hClose
    obtain ⟨reader, hReads, hFinish⟩ := exists_reads_of_blank_or_ok hBefore
    have hLength : (firstChars closed text).length = closed := by
      rw [firstChars, String.length_ofList, List.length_take, Nat.min_eq_left (Nat.le_of_lt hLess)]
    obtain ⟨back, hText⟩ : ∃ back, text.toList = (firstChars closed text).toList ++ ')' :: back := by
      refine ⟨text.toList.drop (closed + 1), ?_⟩
      rw [firstChars, String.toList_ofList, ← hChar, ← List.drop_eq_getElem_cons hLess,
        List.take_append_drop]
    have hNoPrime : Lexeme.NoPrimeFirst (')' :: back) := by
      simp [Lexeme.NoPrimeFirst, Lexeme.isPrime]
    have hScan : Lexeme.scan text = Lexeme.scan (firstChars closed text) ++
        ⟨.rparen, closed⟩ :: Lexeme.scanFrom (closed + 1) back := by
      rw [Lexeme.scan, hText, Lexeme.scanFrom_append 0 _ hNoPrime, Nat.zero_add,
        String.length_toList, hLength, Lexeme.scanFrom, if_neg (by decide), if_neg (by decide)]
      rfl
    rw [hLength] at hFinish
    exact parse_of_refused hScan hReads (step_unmatchedClose_iff.mpr ⟨rfl, rfl, hFinish⟩)

/-- A rejection points at a part of the text, which is not empty unless the
text is; only a dot that is missing at the end is looked for behind the last
character. A parenthesis that is never closed is the last one that matching
leaves open, and then every closing one has its partner. A closing parenthesis
is trailing input exactly if the text before it is blank or an expression by
itself. -/
theorem rejections_point_at_their_cause (text : String) :
    (∀ e, parse text = .error e →
      e.span.start ≤ e.span.stop ∧ (text ≠ "" → e.span.start < e.span.stop) ∧
      (∀ stop, e = .missingDotAtEnd stop → e.span = ⟨text.length, text.length + 1⟩) ∧
      ((∀ stop, e ≠ .missingDotAtEnd stop) → e.span.stop ≤ text.length) ∧
      (e.kind = .mismatchedParens → ∃ opened, e.span = ⟨opened, opened + 1⟩ ∧
        Text.LeftOpen text.toList opened ∧
        (∀ index, Text.LeftOpen text.toList index → index ≤ opened) ∧
        ∀ index, text.toList[index]? = some ')' → Text.Paired text.toList index)) ∧
    ∀ closed, (∃ e, parse text = .error e ∧ e.kind = .trailingInput ∧
        e.span = ⟨closed, closed + 1⟩) ↔
      text.toList[closed]? = some ')' ∧ (Text.isBlankText (firstChars closed text) = true ∨
        ∃ t, parse (firstChars closed text) = .ok t) := by
  constructor
  · intro e hError
    have hPlaced := isPlaced_of_parse_error hError
    refine ⟨hPlaced.start_le_stop, ?_, ?_, hPlaced.stop_le, ?_⟩
    · intro hText
      apply hPlaced.start_lt_stop
      exact Nat.pos_of_ne_zero fun hLength => hText (String.length_eq_zero_iff.mp hLength)
    · rintro stop rfl
      cases hPlaced
      rfl
    · intro hKind
      cases e with
      | unclosedParen opened => exact ⟨opened, rfl, leftOpen_of_parse_unclosedParen hError⟩
      | _ => cases hKind
  · intro closed
    rw [← parse_eq_unmatchedClose_iff]
    constructor
    · rintro ⟨e, hError, hKind, hSpan⟩
      cases e with
      | unmatchedClose index =>
          cases hSpan
          exact hError
      | _ => cases hKind
    · intro hError
      exact ⟨_, hError, rfl, rfl⟩

/-- Two parentheses are open at the end and the inner one is reported. The
closing one after `x` is trailing input, however the text goes on. -/
theorem rejections_point_at_inner_paren :
    parse "(f (λx.(x) y" = .error (.unclosedParen 3) ∧
      (∃ opened, (ParseError.unclosedParen 3).span = ⟨opened, opened + 1⟩ ∧
        Text.LeftOpen "(f (λx.(x) y".toList opened ∧
        (∀ index, Text.LeftOpen "(f (λx.(x) y".toList index → index ≤ opened) ∧
        ∀ index, "(f (λx.(x) y".toList[index]? = some ')' →
          Text.Paired "(f (λx.(x) y".toList index) ∧
      "λx.x ) (".toList[5]? = some ')' ∧ parse (firstChars 5 "λx.x ) (") = .ok (abs "x" (var "x")) ∧
      ∃ e, parse "λx.x ) (" = .error e ∧ e.kind = .trailingInput ∧ e.span = ⟨5, 6⟩ := by
  have hScan : Lexeme.scan "(f (λx.(x) y" =
      [⟨.lparen, 0⟩, ⟨.ident "f", 1⟩, ⟨.lparen, 3⟩, ⟨.lambda, 4⟩, ⟨.ident "x", 5⟩, ⟨.dot, 6⟩,
        ⟨.lparen, 7⟩, ⟨.ident "x", 8⟩, ⟨.rparen, 9⟩, ⟨.ident "y", 11⟩] := by
    decide +kernel
  have hError : parse "(f (λx.(x) y" = .error (.unclosedParen 3) := by
    rw [parse, hScan]
    rfl
  have hBefore : parse (firstChars 5 "λx.x ) (") = .ok (abs "x" (var "x")) := by
    have hTokens : Lexeme.scan (firstChars 5 "λx.x ) (") =
        [⟨.lambda, 0⟩, ⟨.ident "x", 1⟩, ⟨.dot, 2⟩, ⟨.ident "x", 3⟩] := by
      decide +kernel
    rw [parse, hTokens]
    rfl
  have hClose : "λx.x ) (".toList[5]? = some ')' := by decide
  obtain ⟨-, -, -, -, hParens⟩ :=
    (rejections_point_at_their_cause "(f (λx.(x) y").1 _ hError
  exact ⟨hError, hParens rfl, hClose, hBefore,
    ((rejections_point_at_their_cause "λx.x ) (").2 5).mpr ⟨hClose, Or.inr ⟨_, hBefore⟩⟩⟩

end Term

end LambdaDiagram
