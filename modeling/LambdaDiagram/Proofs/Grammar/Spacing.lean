import LambdaDiagram.Proofs.Grammar.Rejection
import LambdaDiagram.Proofs.Grammar.Tiling
import Mathlib.Data.List.Forall2

/-! Spacing and the glyph of a lambda do not matter. The reader copies the indices of tokens and does
not look at them, so if all tokens are moved it does the same as before and only its rejections are
moved. Blanks between two tokens move all tokens behind them by the same distance. -/
namespace LambdaDiagram

section Relocation

variable (move : Nat → Nat)

def Lexeme.relocate (lexeme : Lexeme) : Lexeme :=
  ⟨lexeme.token, move lexeme.start⟩

def Frame.relocate : Frame → Frame
  | .paren opened before => .paren (move opened) before
  | .body lambda params before => .body (move lambda) params before

def Focus.relocate : Focus → Focus
  | .operands acc => .operands acc
  | .parameters lambda params before => .parameters (move lambda) params before

/-- The state after the same tokens, if each of them is moved. -/
def Reader.relocate (reader : Reader) : Reader :=
  ⟨reader.frames.map (Frame.relocate move), reader.focus.relocate move⟩

/-- The same rejection of a text whose tokens are moved. The length of a text
is the place of its end, and is moved as well. -/
def ParseError.relocate : ParseError → ParseError
  | .unclosedParen opened => .unclosedParen (move opened)
  | .unmatchedClose closed => .unmatchedClose (move closed)
  | .unexpectedToken found => .unexpectedToken (found.relocate move)
  | .missingDot found => .missingDot (found.relocate move)
  | .missingDotAtEnd length => .missingDotAtEnd (move length)
  | .missingParameter lambda dot => .missingParameter (move lambda) (move dot)
  | .emptyParens opened closed => .emptyParens (move opened) (move closed)
  | .emptyBody lambda stop => .emptyBody (move lambda) (move stop)
  | .emptyText length => .emptyText (move length)

/-- What a rejection is about does not depend on places. -/
theorem ParseError.kind_relocate (e : ParseError) : (e.relocate move).kind = e.kind := by
  cases e <;> rfl

/-- Every rejection points at the place of a token or at the end of the text,
unless there is no token; then it points at the beginning. -/
theorem ParseError.position_relocate {e : ParseError} (hToken : ∀ length, e ≠ .emptyText length) :
    (e.relocate move).position = move e.position := by
  cases e with
  | emptyText length => exact absurd rfl (hToken length)
  | _ => rfl

/-- The outcome for moved tokens: what was reached is moved by `onState`, and
so is a rejection. -/
def relocateOutcome {α : Type} (onState : α → α) : Except ParseError α → Except ParseError α
  | .ok reached => .ok (onState reached)
  | .error e => .error (e.relocate move)

/-- If each of two computations moves along with the places, then so do both
in a row. -/
theorem relocateOutcome_bind {α β : Type} {onState : α → α} {onResult : β → β}
    {next moved : α → Except ParseError β}
    (hNext : ∀ reached, moved (onState reached) = relocateOutcome move onResult (next reached))
    (outcome : Except ParseError α) :
    (relocateOutcome move onState outcome >>= moved) =
      relocateOutcome move onResult (outcome >>= next) := by
  cases outcome with
  | ok reached => exact hNext reached
  | error e => rfl

namespace Reader

/-- Ending bodies copies places into rejections and frames without comparing
them. -/
theorem endBodies_relocate (stop : Nat) (frames : List Frame) (acc : Option Term) :
    endBodies (move stop) (frames.map (Frame.relocate move)) acc =
      relocateOutcome move (Prod.map (List.map (Frame.relocate move)) id)
        (endBodies stop frames acc) := by
  fun_induction endBodies stop frames acc with
  | case1 lambda params before frames => rfl
  | case2 lambda params before frames body ih => exact ih
  | case3 frames acc hNoBody =>
      cases frames with
      | nil => rfl
      | cons frame frames =>
          cases frame with
          | paren opened before => rfl
          | body lambda params before => exact absurd rfl (hNoBody lambda params before frames)

theorem close_relocate (closed : Nat) (frames : List Frame) (acc : Option Term) :
    close (move closed) (frames.map (Frame.relocate move)) acc =
      relocateOutcome move (Reader.relocate move) (close closed frames acc) := by
  rw [close, close, endBodies_relocate]
  apply relocateOutcome_bind
  rintro ⟨frames, acc⟩
  rcases frames with _ | ⟨⟨opened, before⟩ | ⟨lambda, params, before⟩, outer⟩
  · rfl
  · cases acc <;> rfl
  · rfl

/-- Taking a token does the same as before if the token and the state are
moved: the kind of the token decides, never its place. -/
theorem step_relocate (reader : Reader) (lexeme : Lexeme) :
    (reader.relocate move).step (lexeme.relocate move) =
      relocateOutcome move (Reader.relocate move) (reader.step lexeme) := by
  rcases reader with ⟨frames, acc | ⟨lambda, params, before⟩⟩
  · rcases lexeme with ⟨token, start⟩
    cases token with
    | rparen => exact close_relocate move start frames acc
    | _ => rfl
  · rcases lexeme with ⟨token, start⟩
    cases token with
    | dot =>
        cases params with
        | nil => rfl
        | cons param params => rfl
    | _ => rfl

/-- A run over moved tokens reaches the moved state or the moved rejection, by
induction from the single token. -/
theorem foldlM_step_relocate (reader : Reader) (lexemes : List Lexeme) :
    (lexemes.map (Lexeme.relocate move)).foldlM step (reader.relocate move) =
      relocateOutcome move (Reader.relocate move) (lexemes.foldlM step reader) := by
  induction lexemes generalizing reader with
  | nil => rfl
  | cons lexeme lexemes ih =>
      rw [List.map_cons, List.foldlM_cons, List.foldlM_cons, step_relocate]
      exact relocateOutcome_bind move ih (reader.step lexeme)

theorem finish_relocate (reader : Reader) (length : Nat) :
    (reader.relocate move).finish (move length) =
      relocateOutcome move id (reader.finish length) := by
  rcases reader with ⟨frames, acc | ⟨lambda, params, before⟩⟩
  · simp only [finish, relocate, Focus.relocate]
    rw [endBodies_relocate]
    apply relocateOutcome_bind
    rintro ⟨frames, acc⟩
    rcases frames with _ | ⟨⟨opened, before⟩ | ⟨lambda, params, before⟩, outer⟩
    · cases acc <;> rfl
    · rfl
    · cases acc <;> rfl
  · rfl

end Reader

/-- If the tokens of a text and its end are moved, then so is its rejection; a
term stays as it is. -/
theorem Term.parse_relocate {text moved : String}
    (hScan : Lexeme.scan moved = (Lexeme.scan text).map (Lexeme.relocate move))
    (hLength : moved.length = move text.length) :
    parse moved = relocateOutcome move id (parse text) := by
  have hStart : Reader.start = Reader.start.relocate move := rfl
  rw [parse, parse, hScan, hLength]
  nth_rewrite 1 [hStart]
  rw [Reader.foldlM_step_relocate]
  apply relocateOutcome_bind
  intro reader
  exact reader.finish_relocate move text.length

end Relocation

namespace Lexeme

/-- Where a character stands after `width` characters have been inserted in
front of index `cut`. -/
def shiftFrom (cut width index : Nat) : Nat :=
  if index < cut then index else index + width

/-- Starting to count elsewhere moves all lexemes by the same distance. -/
theorem scanFrom_add (start width : Nat) (chars : List Char) :
    scanFrom (start + width) chars = (scanFrom start chars).map (relocate (· + width)) := by
  fun_induction scanFrom start chars with
  | case1 start => rw [scanFrom, List.map_nil]
  | case2 start c rest hBlank ih =>
      rw [scanFrom, if_pos hBlank, Nat.add_right_comm, ih]
  | case3 start c rest hBlank hAlpha primes ih =>
      rw [scanFrom, if_neg hBlank, if_pos hAlpha, List.map_cons, ← ih,
        show start + 1 + primes.length + width = start + width + 1 + primes.length by omega]
      rfl
  | case4 start c rest hBlank hAlpha ih =>
      rw [scanFrom, if_neg hBlank, if_neg hAlpha, Nat.add_right_comm, ih, List.map_cons]
      rfl

/-- Blanks inserted between tokens move the tokens behind them. A quote mark
right behind the blanks is excluded, for without them it could belong to a
letter. -/
theorem scan_insert_blanks (front : String) {blanks back : String}
    (hBlanks : Text.isBlankText blanks = true) (hBack : NoPrimeFirst back.toList) :
    scan (front ++ blanks ++ back) =
      (scan (front ++ back)).map (relocate (shiftFrom front.length blanks.length)) := by
  have hWith : scan (front ++ blanks ++ back) =
      scan front ++ scanFrom (front.length + blanks.length) back.toList := by
    rw [scan, String.append_assoc, String.toList_append, String.toList_append,
      scanFrom_append 0 _ ((noPrimeFirst_blanks hBlanks).append hBack), Nat.zero_add,
      scanFrom_blanks _ hBlanks, String.length_toList, String.length_toList, scan]
  have hWithout : scan (front ++ back) = scan front ++ scanFrom front.length back.toList := by
    rw [scan, String.toList_append, scanFrom_append 0 _ hBack, Nat.zero_add,
      String.length_toList, scan]
  have hBefore : (scan front).map (relocate (shiftFrom front.length blanks.length)) =
      scan front := by
    calc (scan front).map (relocate (shiftFrom front.length blanks.length))
      _ = (scan front).map id := by
        apply List.map_congr_left
        intro lexeme hMem
        have hStart : lexeme.start < front.length := by
          obtain ⟨hStop, hEnd⟩ := start_lt_stop_of_mem_scan hMem
          omega
        rw [relocate, shiftFrom, if_pos hStart]
        rfl
      _ = scan front := List.map_id _
  have hBehind : (scanFrom front.length back.toList).map
        (relocate (shiftFrom front.length blanks.length)) =
      scanFrom (front.length + blanks.length) back.toList := by
    rw [scanFrom_add]
    apply List.map_congr_left
    intro lexeme hMem
    have hStart := (tiles_scanFrom front.length back.toList).start_le hMem
    rw [relocate, shiftFrom, if_neg (by omega), relocate]
  rw [hWith, hWithout, List.map_append, hBefore, hBehind]

/-- Two ways to type the same character: a lambda may be typed as a backslash. -/
def SameGlyph (c d : Char) : Prop :=
  c = d ∨ c = '\\' ∧ d = 'λ' ∨ c = 'λ' ∧ d = '\\'

def withLambda (c : Char) : Char :=
  if c = '\\' then 'λ' else c

theorem withLambda_of_ne {c : Char} (hChar : c ≠ '\\') : withLambda c = c :=
  if_neg hChar

theorem SameGlyph.withLambda_eq {c d : Char} (hSame : SameGlyph c d) :
    withLambda c = withLambda d := by
  rcases hSame with rfl | ⟨rfl, rfl⟩ | ⟨rfl, rfl⟩ <;> rfl

theorem isPrime_withLambda (c : Char) : isPrime (withLambda c) = isPrime c := by
  by_cases hChar : c = '\\'
  · rw [hChar]
    rfl
  · rw [withLambda_of_ne hChar]

theorem takeWhile_map_withLambda (chars : List Char) :
    (chars.map withLambda).takeWhile isPrime = chars.takeWhile isPrime := by
  have hClass : isPrime ∘ withLambda = isPrime := funext isPrime_withLambda
  rw [List.takeWhile_map, hClass]
  calc (chars.takeWhile isPrime).map withLambda
    _ = (chars.takeWhile isPrime).map id := by
      apply List.map_congr_left
      intro c hMem
      have hPrime : isPrime c = true := List.all_eq_true.mp List.all_takeWhile c hMem
      apply withLambda_of_ne
      rintro rfl
      exact absurd hPrime (by decide)
    _ = chars.takeWhile isPrime := List.map_id _

theorem dropWhile_map_withLambda (chars : List Char) :
    (chars.map withLambda).dropWhile isPrime = (chars.dropWhile isPrime).map withLambda := by
  have hClass : isPrime ∘ withLambda = isPrime := funext isPrime_withLambda
  rw [List.dropWhile_map, hClass]

/-- The scan does not see the difference between the two glyphs. No letter and
no quote mark is concerned. -/
theorem scanFrom_map_withLambda (start : Nat) (chars : List Char) :
    scanFrom start (chars.map withLambda) = scanFrom start chars := by
  fun_induction scanFrom start chars with
  | case1 start => rw [List.map_nil, scanFrom]
  | case2 start c rest hBlank ih =>
      have hChar : c ≠ '\\' := by
        rintro rfl
        exact absurd hBlank (by decide)
      rw [List.map_cons, withLambda_of_ne hChar, scanFrom, if_pos hBlank, ih]
  | case3 start c rest hBlank hAlpha primes ih =>
      have hChar : c ≠ '\\' := by
        rintro rfl
        exact absurd hAlpha (by decide)
      rw [List.map_cons, withLambda_of_ne hChar, scanFrom, if_neg hBlank, if_pos hAlpha,
        takeWhile_map_withLambda, dropWhile_map_withLambda]
      exact congrArg (List.cons _) ih
  | case4 start c rest hBlank hAlpha ih =>
      by_cases hChar : c = '\\'
      · subst hChar
        rw [List.map_cons, scanFrom, if_neg (by decide), if_neg (by decide), ih]
        rfl
      · rw [List.map_cons, withLambda_of_ne hChar, scanFrom, if_neg hBlank, if_neg hAlpha, ih]

theorem map_withLambda_of_sameGlyphs {chars other : List Char}
    (hSame : List.Forall₂ SameGlyph chars other) :
    chars.map withLambda = other.map withLambda := by
  induction hSame with
  | nil => rfl
  | cons hHead hTail ih => rw [List.map_cons, List.map_cons, hHead.withLambda_eq, ih]

theorem scan_of_sameGlyphs {text other : String}
    (hSame : List.Forall₂ SameGlyph text.toList other.toList) : scan text = scan other := by
  rw [scan, ← scanFrom_map_withLambda, map_withLambda_of_sameGlyphs hSame, scanFrom_map_withLambda,
    scan]

end Lexeme

namespace Term

/-- A text with blanks inserted has the same term, or the rejection moved
along with the text. -/
theorem parse_insert_blanks (front : String) {blanks back : String}
    (hBlanks : Text.isBlankText blanks = true) (hBack : Lexeme.NoPrimeFirst back.toList) :
    parse (front ++ blanks ++ back) =
      relocateOutcome (Lexeme.shiftFrom front.length blanks.length) id (parse (front ++ back)) := by
  apply parse_relocate
  · exact Lexeme.scan_insert_blanks front hBlanks hBack
  · rw [Lexeme.shiftFrom, String.length_append, String.length_append, String.length_append,
      if_neg (by omega)]
    omega

/-- The glyph of a lambda changes neither terms nor rejections, not even their
places. -/
theorem parse_of_sameGlyphs {text other : String}
    (hSame : List.Forall₂ Lexeme.SameGlyph text.toList other.toList) :
    parse text = parse other := by
  have hLength : text.length = other.length := by
    rw [← String.length_toList, ← String.length_toList, hSame.length_eq]
  rw [parse, parse, Lexeme.scan_of_sameGlyphs hSame, hLength]

/-- Blanks can be inserted anywhere but in front of a quote mark: the text is
read as the same term, or it is rejected for a reason of the same kind, and
the place of the rejection moves with the text behind the blanks. For a text
that holds nothing but blanks, the place is its beginning in any case. Whether
a lambda is typed as such or as a backslash makes no difference at all. -/
theorem parse_ignores_spacing_and_glyphs :
    (∀ front blanks back : String, back.toList.head? ≠ some '\'' → Text.isBlankText blanks = true →
      (∃ t, parse (front ++ blanks ++ back) = .ok t ∧ parse (front ++ back) = .ok t) ∨
      ∃ moved e, parse (front ++ blanks ++ back) = .error moved ∧ parse (front ++ back) = .error e ∧
        moved.kind = e.kind ∧
        (Text.isBlankText (front ++ back) = false →
          moved.position = if e.position < front.length then e.position
            else e.position + blanks.length)) ∧
    ∀ text other : String, List.Forall₂ Lexeme.SameGlyph text.toList other.toList →
      parse text = parse other := by
  refine ⟨?_, fun text other => parse_of_sameGlyphs⟩
  intro front blanks back hQuote hBlanks
  have hBack : Lexeme.NoPrimeFirst back.toList := by
    intro c hHead
    rw [Option.mem_def.mp hHead] at hQuote
    simpa [Lexeme.isPrime] using hQuote
  have hMoved := parse_insert_blanks front hBlanks hBack
  cases hParse : parse (front ++ back) with
  | ok t =>
      rw [hParse] at hMoved
      exact Or.inl ⟨t, hMoved, rfl⟩
  | error e =>
      rw [hParse] at hMoved
      refine Or.inr ⟨_, e, hMoved, rfl, e.kind_relocate _, ?_⟩
      intro hText
      apply ParseError.position_relocate
      rintro length rfl
      simp [parse_eq_emptyText_iff, hText] at hParse

/-- A wide blank and a space in front of the dot move the parenthesis that is
never closed; a lambda in the parameters is rejected alike however it was
typed. -/
theorem parse_ignores_spacing_and_glyphs_among_parameters :
    parse ("λx" ++ ".(x") = .error (.unclosedParen 3) ∧
      (∃ moved, parse ("λx" ++ "\u3000 " ++ ".(x") = .error moved ∧
        moved.kind = .mismatchedParens ∧ moved.position = 5) ∧
      parse "\\xλ" = parse "λx\\" := by
  have hScan : Lexeme.scan ("λx" ++ ".(x") =
      [⟨.lambda, 0⟩, ⟨.ident "x", 1⟩, ⟨.dot, 2⟩, ⟨.lparen, 3⟩, ⟨.ident "x", 4⟩] := by
    decide +kernel
  have hError : parse ("λx" ++ ".(x") = .error (.unclosedParen 3) := by
    rw [parse, hScan]
    rfl
  have hGlyphs : List.Forall₂ Lexeme.SameGlyph ['\\', 'x', 'λ'] ['λ', 'x', '\\'] :=
    .cons (.inr (.inl ⟨rfl, rfl⟩)) (.cons (.inl rfl) (.cons (.inr (.inr ⟨rfl, rfl⟩)) .nil))
  refine ⟨hError, ?_, parse_ignores_spacing_and_glyphs.2 "\\xλ" "λx\\" hGlyphs⟩
  rcases parse_ignores_spacing_and_glyphs.1 "λx" "\u3000 " ".(x" (by decide) (by decide) with
    ⟨t, -, hParse⟩ | ⟨moved, e, hMoved, hParse, hKind, hPosition⟩
  · rw [hError] at hParse
    cases hParse
  · rw [hError] at hParse
    cases hParse
    exact ⟨moved, hMoved, hKind, hPosition (by decide)⟩

end Term

end LambdaDiagram
