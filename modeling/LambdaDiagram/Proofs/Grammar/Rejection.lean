import LambdaDiagram.Proofs.Grammar.Reading
import LambdaDiagram.Proofs.Grammar.Scanning
import Mathlib.Logic.Basic

/-! Nothing that the reader has taken so far is a dead end: from every state some text leads to a
whole expression. A missing operand is supplied, and then all open parentheses are closed. -/
namespace LambdaDiagram

namespace Reader

/-- One closing parenthesis for each open one. Open bodies end by themselves. -/
def closers : List Frame → List Char
  | [] => []
  | .paren _ _ :: frames => ')' :: closers frames
  | .body _ _ _ :: frames => closers frames

/-- The shortest operand that can follow, with the rest of the parameters
before it if the reader is among these. -/
def supply : Focus → List Char
  | .operands _ => ['x']
  | .parameters _ _ _ => ['x', '.', 'x']

def completion (reader : Reader) : List Char :=
  supply reader.focus ++ closers reader.frames

theorem noPrimeFirst_closers (frames : List Frame) : Lexeme.NoPrimeFirst (closers frames) := by
  fun_induction closers frames with
  | case1 =>
      intro c hHead
      cases hHead
  | case2 opened before frames ih =>
      rintro c ⟨rfl⟩
      rfl
  | case3 lambda params before frames ih => exact ih

theorem noPrimeFirst_completion (reader : Reader) : Lexeme.NoPrimeFirst reader.completion := by
  rcases reader with ⟨frames, _ | _⟩
  · rintro c ⟨rfl⟩
    rfl
  · rintro c ⟨rfl⟩
    rfl

theorem EndsAs.close_body {after : Reader} {lambda : Nat} {params : List Name}
    {before : Option Term} {frames : List Frame} {t : Term}
    (hEnds : after.EndsAs (.body lambda params before :: frames) t) :
    after.EndsAs frames (applyTo before (abstractOver params t)) := hEnds

/-- The closing parentheses are taken one by one, each ending the bodies
inside of its pair, until nothing is open. -/
theorem EndsAs.reads_closers {reader : Reader} {frames : List Frame} {t : Term}
    (hEnds : reader.EndsAs frames t) (start : Nat) :
    ∃ after u, reader.Reads (Lexeme.scanFrom start (closers frames)) after ∧ after.EndsAs [] u := by
  fun_induction closers frames generalizing reader t start with
  | case1 =>
      refine ⟨reader, t, ?_, hEnds⟩
      rw [Lexeme.scanFrom]
      exact Reads.nil reader
  | case2 opened before frames ih =>
      have hScan : Lexeme.scanFrom start (')' :: closers frames) =
          ⟨.rparen, start⟩ :: Lexeme.scanFrom (start + 1) (closers frames) := by
        rw [Lexeme.scanFrom]
        rfl
      obtain ⟨after, u, hReads, hAfter⟩ := ih (endsAs_self frames (applyTo before t)) (start + 1)
      refine ⟨after, u, ?_, hAfter⟩
      rw [hScan]
      exact Reads.cons (step_rparen hEnds rfl) hReads
  | case3 lambda params before frames ih => exact ih hEnds.close_body start

theorem scanFrom_x (start : Nat) {rest : List Char} (hRest : Lexeme.NoPrimeFirst rest) :
    Lexeme.scanFrom start ('x' :: rest) =
      ⟨.ident "x", start⟩ :: Lexeme.scanFrom (start + 1) rest := by
  have hNone : ∀ p ∈ ([] : List Char), Lexeme.isPrime p = true := by simp
  exact Lexeme.scanFrom_letter start rfl hNone hRest

/-- In every state the reader takes the supplied operand, with the parameters
and the dot it may still need before it. -/
theorem reads_supply (reader : Reader) (start : Nat) :
    ∃ after t, reader.Reads (Lexeme.scanFrom start (supply reader.focus)) after ∧
      after.EndsAs reader.frames t := by
  have hEnd : ∀ start, Lexeme.scanFrom start ['x'] = [⟨.ident "x", start⟩] := by
    intro start
    rw [scanFrom_x start (by simp [Lexeme.NoPrimeFirst]), Lexeme.scanFrom]
  rcases reader with ⟨frames, acc | ⟨lambda, params, before⟩⟩
  · refine ⟨⟨frames, .operands (some (applyTo acc (.var "x")))⟩, _, ?_, endsAs_self frames _⟩
    show Reads _ (Lexeme.scanFrom start ['x']) _
    rw [hEnd start]
    exact Reads.cons rfl (Reads.nil _)
  · have hScan : Lexeme.scanFrom start ['x', '.', 'x'] =
        [⟨.ident "x", start⟩, ⟨.dot, start + 1⟩, ⟨.ident "x", start + 1 + 1⟩] := by
      rw [scanFrom_x start (by simp [Lexeme.NoPrimeFirst, Lexeme.isPrime]), Lexeme.scanFrom,
        if_neg (by decide), if_neg (by decide), hEnd]
      rfl
    have hBody : step ⟨frames, .parameters lambda (params ++ ["x"]) before⟩ ⟨.dot, start + 1⟩ =
        .ok ⟨.body lambda (params ++ ["x"]) before :: frames, .operands none⟩ := by
      simp [step]
    refine ⟨⟨.body lambda (params ++ ["x"]) before :: frames, .operands (some (.var "x"))⟩, _, ?_,
      (endsAs_self _ _).close_body⟩
    show Reads _ (Lexeme.scanFrom start ['x', '.', 'x']) _
    rw [hScan]
    exact Reads.cons rfl (Reads.cons hBody (Reads.cons rfl (Reads.nil _)))

/-- From every state the completion leads to one that ends as a whole term. -/
theorem reads_completion (reader : Reader) (start : Nat) :
    ∃ after t, reader.Reads (Lexeme.scanFrom start reader.completion) after ∧
      after.EndsAs [] t := by
  obtain ⟨middle, u, hSupply, hMiddle⟩ := reader.reads_supply start
  obtain ⟨after, t, hClosers, hAfter⟩ :=
    hMiddle.reads_closers (start + (supply reader.focus).length)
  refine ⟨after, t, ?_, hAfter⟩
  rw [completion, Lexeme.scanFrom_append start _ (noPrimeFirst_closers reader.frames)]
  exact hSupply.append hClosers

end Reader

namespace Term

/-- Some text behind it makes this text an expression. -/
def Viable (text : String) : Prop :=
  ∃ rest t, parse (text ++ rest) = .ok t

/-- A text whose tokens are all taken can be completed, since the completion
may follow any token. -/
theorem viable_of_reads {text : String} {reader : Reader}
    (hReads : Reader.start.Reads (Lexeme.scan text) reader) : Viable text := by
  obtain ⟨after, t, hRest, hEnds⟩ := reader.reads_completion text.length
  refine ⟨String.ofList reader.completion, t, ?_⟩
  rw [parse_eq_ok_iff_reads]
  refine ⟨after, ?_, Reader.finish_of_endsAs hEnds _⟩
  have hScan : Lexeme.scan (text ++ String.ofList reader.completion) =
      Lexeme.scan text ++ Lexeme.scanFrom text.length reader.completion := by
    rw [Lexeme.scan, String.toList_append, String.toList_ofList,
      Lexeme.scanFrom_append 0 _ reader.noPrimeFirst_completion, Nat.zero_add,
      String.length_toList, Lexeme.scan]
  rw [hScan]
  exact hReads.append hRest

end Term

/-! Where a text goes wrong. Either the reader refuses a token, and then nothing that might stand
behind that token matters, or it has taken the whole text and misses something at the end, which
more text could supply. -/

namespace ParseError

/-- The rejections for which the end of the text is to blame. -/
inductive AtEnd (text : String) : ParseError → Prop where
  | missingDot {e : ParseError} (hKind : e.kind = .missingDot)
      (hSpan : e.span = ⟨text.length, text.length + 1⟩) : AtEnd text e
  | mismatchedParens {e : ParseError} (hKind : e.kind = .mismatchedParens) : AtEnd text e
  | blankText (hBlank : Text.isBlankText text = true) : AtEnd text (.emptyText text.length)
  | missingBody (lambda : Nat) : AtEnd text (.emptyBody lambda text.length)

/-- How a rejection tells which character of the text is to blame: mostly it
is the first that the rejection points at, for empty parentheses the last, and
for an empty body the closing parenthesis behind it. -/
inductive Blames (text : String) : ParseError → Nat → Prop where
  | first {e : ParseError}
      (hKind : e.kind ∈ [ErrorKind.unexpectedChar, .missingDot, .trailingInput]) :
      Blames text e e.span.start
  | parens (opened closed : Nat) :
      Blames text (.emptyParens opened closed) ((emptyParens opened closed).span.stop - 1)
  | body (lambda stop : Nat) (hClose : text.toList[stop]? = some ')') :
      Blames text (.emptyBody lambda stop) (emptyBody lambda stop).span.stop

end ParseError

def Frame.index : Frame → Nat
  | .paren opened _ => opened
  | .body lambda _ _ => lambda

namespace Reader

/-- Ending bodies takes off frames up to a parenthesis, or up to the outermost
one. -/
theorem endBodies_ok {stop : Nat} {frames frames' : List Frame} {acc acc' : Option Term}
    (hEnd : endBodies stop frames acc = .ok (frames', acc')) :
    frames' <:+ frames ∧ ∀ lambda params before rest, frames' ≠ .body lambda params before :: rest := by
  fun_induction endBodies stop frames acc with
  | case1 lambda params before frames => cases hEnd
  | case2 lambda params before frames body ih =>
      obtain ⟨hSuffix, hNoBody⟩ := ih hEnd
      exact ⟨hSuffix.trans (List.suffix_cons ..), hNoBody⟩
  | case3 frames acc hNoBody =>
      cases hEnd
      exact ⟨List.suffix_refl _, fun lambda params before rest => hNoBody lambda params before rest⟩

/-- Ending bodies fails only for a body without operands, and names the lambda
of that body. -/
theorem endBodies_error {stop : Nat} {frames : List Frame} {acc : Option Term} {e : ParseError}
    (hError : endBodies stop frames acc = .error e) :
    ∃ lambda ∈ frames.map Frame.index, e = .emptyBody lambda stop := by
  fun_induction endBodies stop frames acc with
  | case1 lambda params before frames =>
      cases hError
      exact ⟨lambda, List.mem_cons_self, rfl⟩
  | case2 lambda params before frames body ih =>
      obtain ⟨inner, hMem, hReason⟩ := ih hError
      exact ⟨inner, List.mem_cons_of_mem _ hMem, hReason⟩
  | case3 frames acc hNoBody => cases hError

/-- The three reasons to refuse a closing parenthesis: an empty body ends
there, its pair is empty, or it has no partner. -/
theorem close_error {closed : Nat} {frames : List Frame} {acc : Option Term} {e : ParseError}
    (hError : close closed frames acc = .error e) :
    (∃ lambda ∈ frames.map Frame.index, e = .emptyBody lambda closed) ∨
      (∃ opened ∈ frames.map Frame.index, e = .emptyParens opened closed) ∨
      e = .unmatchedClose closed := by
  rw [close] at hError
  cases hEnd : endBodies closed frames acc with
  | error reason =>
      rw [hEnd] at hError
      cases hError
      exact Or.inl (endBodies_error hEnd)
  | ok ended =>
      rw [hEnd] at hError
      simp only [bind, Except.bind] at hError
      split at hError
      next => cases hError
      next opened before rest =>
        cases hError
        obtain ⟨hSuffix, -⟩ := endBodies_ok hEnd
        have hMem := hSuffix.subset List.mem_cons_self
        exact Or.inr (Or.inl ⟨opened, List.mem_map_of_mem hMem, rfl⟩)
      next =>
        cases hError
        exact Or.inr (Or.inr rfl)

/-- A refused token is no identifier, and the reason for its refusal blames
it. -/
theorem step_error {reader : Reader} {lexeme : Lexeme} {e : ParseError}
    (hError : reader.step lexeme = .error e) :
    (∀ name, lexeme.token ≠ .ident name) ∧
      ∀ text : String, (lexeme.token = .rparen → text.toList[lexeme.start]? = some ')') →
        e.Blames text lexeme.start := by
  rcases reader with ⟨frames, acc | ⟨lambda, params, before⟩⟩
  · cases hToken : lexeme.token with
    | ident name => simp [step, hToken] at hError
    | lparen => simp [step, hToken] at hError
    | lambda => simp [step, hToken] at hError
    | dot | other char =>
        simp only [step, hToken, Except.error.injEq] at hError
        subst hError
        exact ⟨by simp, fun text _ => .first (by simp [ParseError.kind])⟩
    | rparen =>
        simp only [step, hToken] at hError
        refine ⟨by simp, fun text hClose => ?_⟩
        rcases close_error hError with ⟨lambda, -, rfl⟩ | ⟨opened, -, rfl⟩ | rfl
        · exact .body lambda lexeme.start (hClose rfl)
        · exact .parens opened lexeme.start
        · exact .first (by simp [ParseError.kind])
  · cases hToken : lexeme.token with
    | ident name => simp [step, hToken] at hError
    | dot =>
        by_cases hEmpty : params = []
        · simp only [step, hToken, hEmpty, List.isEmpty_nil, if_true, Except.error.injEq] at hError
          subst hError
          exact ⟨by simp, fun text _ => .first (by simp [ParseError.kind])⟩
        · simp [step, hToken, hEmpty] at hError
    | lparen | rparen | lambda | other char =>
        simp only [step, hToken, Except.error.injEq] at hError
        subst hError
        exact ⟨by simp, fun text _ => .first (by simp [ParseError.kind])⟩

/-- What is missing at the end of a text is blamed on the end. Where nothing
is open and there is no operand either, there was no token at all, so the text
is blank. -/
theorem finish_error {text : String} {reader : Reader} {e : ParseError}
    (hConsumed : Consumed ((Lexeme.scan text).map Lexeme.token) reader)
    (hError : reader.finish text.length = .error e) : e.AtEnd text := by
  generalize hTokens : (Lexeme.scan text).map Lexeme.token = tokens at hConsumed
  cases hConsumed with
  | parameters lambda params hOuter hBefore =>
      cases hError
      exact .missingDot rfl rfl
  | @operands outer inner frames acc hOuter hInner =>
      simp only [finish] at hError
      cases hEnd : endBodies text.length frames acc with
      | error reason =>
          rw [hEnd] at hError
          cases hError
          obtain ⟨lambda, -, rfl⟩ := endBodies_error hEnd
          exact .missingBody lambda
      | ok ended =>
          rcases ended with ⟨frames', acc'⟩
          rw [hEnd] at hError
          obtain ⟨outer', inner', hSplit, hOuter', hInner', hNoBody⟩ :=
            hOuter.endBodies hInner.contents hEnd
          cases hOuter' with
          | body => exact False.elim (hNoBody _ _ _ _ rfl)
          | paren =>
              cases hError
              exact .mismatchedParens rfl
          | nil =>
              cases hInner' with
              | some sequence => cases hError
              | none =>
                  cases hError
                  rw [Lexeme.map_token_scan, hSplit] at hTokens
                  exact .blankText (Lexeme.all_isBlank_of_tokens_eq_nil hTokens)

/-- A run that fails has a first token that is refused, and the reader got
over all tokens before it. -/
theorem foldlM_step_error {reader : Reader} {lexemes : List Lexeme} {e : ParseError}
    (hError : lexemes.foldlM step reader = .error e) :
    ∃ before lexeme after next, lexemes = before ++ lexeme :: after ∧ reader.Reads before next ∧
      next.step lexeme = .error e := by
  induction lexemes generalizing reader with
  | nil => cases hError
  | cons lexeme rest ih =>
      rw [List.foldlM_cons] at hError
      cases hStep : reader.step lexeme with
      | error reason =>
          rw [hStep] at hError
          cases hError
          exact ⟨[], lexeme, rest, reader, rfl, Reads.nil reader, hStep⟩
      | ok middle =>
          rw [hStep] at hError
          obtain ⟨before, refused, after, next, rfl, hReads, hRefused⟩ := ih hError
          exact ⟨lexeme :: before, refused, after, next, rfl, hReads.cons hStep, hRefused⟩

end Reader

namespace Term

def firstChars (count : Nat) (text : String) : String :=
  String.ofList (text.toList.take count)

theorem firstChars_append_drop (count : Nat) (text : String) :
    firstChars count text ++ String.ofList (text.toList.drop count) = text := by
  rw [firstChars, ← String.ofList_append, List.take_append_drop, String.ofList_toList]

theorem firstChars_of_eq_append {text : String} {front back : List Char}
    (hText : text.toList = front ++ back) : firstChars front.length text = String.ofList front := by
  rw [firstChars, hText, List.take_left]

theorem parse_error_cases {text : String} {e : ParseError} (hError : parse text = .error e) :
    (Lexeme.scan text).foldlM Reader.step Reader.start = .error e ∨
      ∃ reader, Reader.start.Reads (Lexeme.scan text) reader ∧
        reader.finish text.length = .error e := by
  rw [parse] at hError
  cases hReads : (Lexeme.scan text).foldlM Reader.step Reader.start with
  | error reason =>
      rw [hReads] at hError
      cases hError
      exact Or.inl rfl
  | ok reader =>
      rw [hReads] at hError
      exact Or.inr ⟨reader, hReads, hError⟩

/-- A token that is refused decides the whole text, whatever stands behind it. -/
theorem parse_of_refused {text : String} {before after : List Lexeme} {lexeme : Lexeme}
    {reader : Reader} {e : ParseError} (hScan : Lexeme.scan text = before ++ lexeme :: after)
    (hReads : Reader.start.Reads before reader) (hRefused : reader.step lexeme = .error e) :
    parse text = .error e := by
  rw [parse, hScan, List.foldlM_append, hReads]
  show ((lexeme :: after).foldlM Reader.step reader >>= _) = _
  rw [List.foldlM_cons, hRefused]
  rfl

/-- The text is viable up to the character with this index and not any more
with it, and what stands behind that character does not change the rejection. -/
structure DeadEnd (text : String) (e : ParseError) (index : Nat) : Prop where
  blamed : e.Blames text index
  inside : index < text.length
  viable : Viable (firstChars index text)
  notViable : ¬ Viable (firstChars (index + 1) text)
  final : ∀ rest, parse (firstChars (index + 1) text ++ rest) = .error e

/-- A refused token is one character of the text. The reader got over the text
in front of it, so that text is viable; and since the token stays refused, no
text with the character in it is. -/
theorem exists_deadEnd {text : String} {e : ParseError}
    (hError : (Lexeme.scan text).foldlM Reader.step Reader.start = .error e) :
    ∃ index, DeadEnd text e index := by
  obtain ⟨before, lexeme, after, reader, hScan, hReads, hRefused⟩ :=
    Reader.foldlM_step_error hError
  obtain ⟨hToken, hBlames⟩ := Reader.step_error hRefused
  obtain ⟨front, c, back, hText, hStart, hSymbol, hFront, hBehind⟩ :=
    Lexeme.cutAt_of_scanFrom_eq hScan hToken
  rw [Nat.zero_add] at hStart
  have hBefore : firstChars front.length text = String.ofList front :=
    firstChars_of_eq_append hText
  have hThrough : firstChars (front.length + 1) text = String.ofList (front ++ [c]) := by
    have hLength : (front ++ [c]).length = front.length + 1 := List.length_append
    rw [← hLength]
    apply firstChars_of_eq_append
    rw [hText, List.append_assoc, List.singleton_append]
  have hFinal : ∀ rest, parse (firstChars (front.length + 1) text ++ rest) = .error e := by
    intro rest
    have hCut : Lexeme.scan (firstChars (front.length + 1) text ++ rest) =
        before ++ lexeme :: Lexeme.scanFrom (0 + front.length + 1) rest.toList := by
      rw [Lexeme.scan, hThrough, String.toList_append, String.toList_ofList, List.append_assoc]
      exact hBehind rest.toList
    exact parse_of_refused hCut hReads hRefused
  refine ⟨front.length, ?_, ?_, ?_, ?_, hFinal⟩
  · rw [← hStart]
    apply hBlames
    intro hClose
    rw [hSymbol] at hClose
    rw [hStart, hText, Lexeme.eq_of_symbol_eq_rparen hClose]
    simp
  · rw [← String.length_toList, hText, List.length_append, List.length_cons]
    omega
  · apply viable_of_reads
    rw [Lexeme.scan, hBefore, String.toList_ofList, hFront]
    exact hReads
  · rintro ⟨rest, t, hParse⟩
    rw [hFinal] at hParse
    cases hParse

/-- A text is said to hold no token exactly if it is blank. All other
rejections are about a token. -/
theorem parse_eq_emptyText_iff {text : String} {length : Nat} :
    parse text = .error (.emptyText length) ↔
      Text.isBlankText text = true ∧ length = text.length := by
  constructor
  · intro hError
    rcases parse_error_cases hError with hRefused | ⟨reader, hReads, hFinish⟩
    · obtain ⟨index, hDeadEnd⟩ := exists_deadEnd hRefused
      cases hDeadEnd.blamed with
      | first hKind => simp [ParseError.kind] at hKind
    · have hConsumed : Consumed ((Lexeme.scan text).map Lexeme.token) reader :=
        (Consumed.operands .nil .none).reads hReads
      cases Reader.finish_error hConsumed hFinish with
      | missingDot hKind => cases hKind
      | mismatchedParens hKind => cases hKind
      | blankText hBlank => exact ⟨hBlank, rfl⟩
  · rintro ⟨hBlank, rfl⟩
    rw [parse, Lexeme.scan_of_isBlankText hBlank]
    rfl

theorem DeadEnd.not_viable_text {text : String} {e : ParseError} {index : Nat}
    (hDeadEnd : DeadEnd text e index) : ¬ Viable text := by
  rintro ⟨rest, t, hParse⟩
  rw [← firstChars_append_drop (index + 1) text, String.append_assoc, hDeadEnd.final] at hParse
  cases hParse

/-- The first point at which a text cannot be completed any more is the one
that is reported. Either the whole text can still be completed, and its end is
to blame; or there is a character before which it can be completed and with
which it cannot, that character is to blame, and every text that begins in the
same way up to there is rejected for the same reason. Never both. -/
theorem parse_reports_first_dead_end (text : String) (e : ParseError)
    (hError : parse text = .error e) :
    Xor (Viable text ∧ e.AtEnd text) (∃ index, DeadEnd text e index) := by
  rcases parse_error_cases hError with hRefused | ⟨reader, hReads, hFinish⟩
  · obtain ⟨index, hDeadEnd⟩ := exists_deadEnd hRefused
    exact Or.inr ⟨⟨index, hDeadEnd⟩, fun hEnd => hDeadEnd.not_viable_text hEnd.1⟩
  · have hViable : Viable text := viable_of_reads hReads
    have hConsumed : Consumed ((Lexeme.scan text).map Lexeme.token) reader :=
      (Consumed.operands .nil .none).reads hReads
    refine Or.inl ⟨⟨hViable, Reader.finish_error hConsumed hFinish⟩, ?_⟩
    rintro ⟨index, hDeadEnd⟩
    exact hDeadEnd.not_viable_text hViable

/-- The closing parenthesis cuts off the body of the abstraction, so the
second part holds. -/
theorem parse_reports_cut_off_body :
    parse "f (λx.) y" = .error (.emptyBody 3 6) ∧
      Xor (Viable "f (λx.) y" ∧ (ParseError.emptyBody 3 6).AtEnd "f (λx.) y")
        (∃ index, DeadEnd "f (λx.) y" (.emptyBody 3 6) index) := by
  have hScan : Lexeme.scan "f (λx.) y" =
      [⟨.ident "f", 0⟩, ⟨.lparen, 2⟩, ⟨.lambda, 3⟩, ⟨.ident "x", 4⟩, ⟨.dot, 5⟩, ⟨.rparen, 6⟩,
        ⟨.ident "y", 8⟩] := by
    decide +kernel
  have hError : parse "f (λx.) y" = .error (.emptyBody 3 6) := by
    rw [parse, hScan]
    rfl
  exact ⟨hError, parse_reports_first_dead_end _ _ hError⟩

end Term

end LambdaDiagram
