import LambdaDiagram.Grammar

/-! The reader accepts exactly the token sequences of the grammar. Completeness follows a derivation:
what it means for the reader to get over the tokens of an operand, of a spine, of a whole sequence.
Soundness keeps a derivation for everything read so far, cut at the constructs that are still open. -/
namespace LambdaDiagram

namespace Reader

def Reads (before : Reader) (lexemes : List Lexeme) (after : Reader) : Prop :=
  lexemes.foldlM step before = .ok after

theorem Reads.nil (reader : Reader) : reader.Reads [] reader := rfl

theorem Reads.cons {first second third : Reader} {lexeme : Lexeme} {rest : List Lexeme}
    (hStep : first.step lexeme = .ok second) (hRest : second.Reads rest third) :
    first.Reads (lexeme :: rest) third := by
  rw [Reads, List.foldlM_cons, hStep]
  exact hRest

theorem Reads.append {first second third : Reader} {front back : List Lexeme}
    (hFront : first.Reads front second) (hBack : second.Reads back third) :
    first.Reads (front ++ back) third := by
  rw [Reads, List.foldlM_append, hFront]
  exact hBack

theorem Reads.of_cons {first third : Reader} {lexeme : Lexeme} {rest : List Lexeme}
    (hReads : first.Reads (lexeme :: rest) third) :
    ∃ second, first.step lexeme = .ok second ∧ second.Reads rest third := by
  rw [Reads, List.foldlM_cons] at hReads
  cases hStep : first.step lexeme with
  | error reason =>
      rw [hStep] at hReads
      cases hReads
  | ok second =>
      rw [hStep] at hReads
      exact ⟨second, rfl, hReads⟩

/-- Names are collected behind a lambda in the order in which they stand, and
nothing else of the state changes. -/
theorem reads_parameters (frames : List Frame) (lambda : Nat) (before : Option Term)
    (params names : List Name) (lexemes : List Lexeme)
    (hTokens : lexemes.map Lexeme.token = names.map .ident) :
    Reads ⟨frames, .parameters lambda params before⟩ lexemes
      ⟨frames, .parameters lambda (params ++ names) before⟩ := by
  induction names generalizing params lexemes with
  | nil =>
      obtain rfl : lexemes = [] := by simpa using hTokens
      rw [List.append_nil]
      exact Reads.nil _
  | cons name names ih =>
      obtain ⟨lexeme, rest, rfl, hHead, hTail⟩ := List.map_eq_cons_iff.mp hTokens
      have hStep : step ⟨frames, .parameters lambda params before⟩ lexeme =
          .ok ⟨frames, .parameters lambda (params ++ [name]) before⟩ := by
        simp only [step, hHead]
      have hRest := ih (params ++ [name]) rest hTail
      rw [List.append_assoc] at hRest
      exact Reads.cons hStep hRest

/-- The state after a whole sequence. The bodies of its last abstractions are
still open, and ending them gives the term of the sequence. -/
def EndsAs (after : Reader) (frames : List Frame) (t : Term) : Prop :=
  ∃ inner, after.focus = .operands (some inner) ∧
    ∀ stop, endBodies stop after.frames (some inner) = endBodies stop frames (some t)

theorem endsAs_self (frames : List Frame) (t : Term) :
    EndsAs ⟨frames, .operands (some t)⟩ frames t :=
  ⟨t, rfl, fun _ => rfl⟩

/-- A closing parenthesis ends all bodies inside of its pair and applies what
stood before the pair to the result. -/
theorem step_rparen {after : Reader} {opened : Nat} {before : Option Term} {frames : List Frame}
    {t : Term} {lexeme : Lexeme} (hEnds : after.EndsAs (.paren opened before :: frames) t)
    (hToken : lexeme.token = .rparen) :
    after.step lexeme = .ok ⟨frames, .operands (some (applyTo before t))⟩ := by
  obtain ⟨inner, hFocus, hBodies⟩ := hEnds
  simp only [step, hFocus, hToken, close, hBodies]
  rfl

/-- A state that ends as a term with nothing open around it gives that term at
the end of the text. -/
theorem finish_of_endsAs {after : Reader} {t : Term} (hEnds : after.EndsAs [] t) (length : Nat) :
    after.finish length = .ok t := by
  obtain ⟨inner, hFocus, hBodies⟩ := hEnds
  simp only [finish, hFocus, hBodies]
  rfl

end Reader

open Reader

mutual

/-- Getting over an operand applies what was read before to it. Parentheses
add a frame and take it off again. -/
theorem Operand.reads {tokens : List Token} {t : Term} (hOperand : Operand tokens t)
    (lexemes : List Lexeme) (hTokens : lexemes.map Lexeme.token = tokens)
    (frames : List Frame) (acc : Option Term) :
    Reads ⟨frames, .operands acc⟩ lexemes ⟨frames, .operands (some (applyTo acc t))⟩ := by
  match hOperand with
  | .ident name =>
      obtain ⟨lexeme, rest, rfl, hHead, hTail⟩ := List.map_eq_cons_iff.mp hTokens
      obtain rfl : rest = [] := by simpa using hTail
      refine Reads.cons ?_ (Reads.nil _)
      simp only [step, hHead]
  | .paren inner =>
      obtain ⟨lexeme, rest, rfl, hHead, hTail⟩ := List.map_eq_cons_iff.mp hTokens
      obtain ⟨middle, last, rfl, hMiddle, hLast⟩ := List.map_eq_append_iff.mp hTail
      obtain ⟨close, nothing, rfl, hClose, hNothing⟩ := List.map_eq_cons_iff.mp hLast
      obtain rfl : nothing = [] := by simpa using hNothing
      have hOpen : step ⟨frames, .operands acc⟩ lexeme =
          .ok ⟨.paren lexeme.start acc :: frames, .operands none⟩ := by
        simp only [step, hHead]
      obtain ⟨after, hReads, hEnds⟩ :=
        Sequence.reads inner middle hMiddle (.paren lexeme.start acc :: frames)
      exact Reads.cons hOpen (hReads.append (Reads.cons (step_rparen hEnds hClose) (Reads.nil _)))

/-- An abstraction is appended to the operands before it once its body is
ended. The body's own frame is the first that ending takes off, so the state
ends as the abstraction just as it ends as the body. -/
theorem Abstraction.reads {tokens : List Token} {t : Term} (hAbstraction : Abstraction tokens t)
    (lexemes : List Lexeme) (hTokens : lexemes.map Lexeme.token = tokens)
    (frames : List Frame) (acc : Option Term) :
    ∃ after, Reads ⟨frames, .operands acc⟩ lexemes after ∧
      after.EndsAs frames (applyTo acc t) := by
  match hAbstraction with
  | @Abstraction.intro params _ _ nonempty inner =>
      obtain ⟨lexeme, rest, rfl, hHead, hTail⟩ := List.map_eq_cons_iff.mp hTokens
      obtain ⟨names, dotted, rfl, hNames, hDotted⟩ := List.map_eq_append_iff.mp hTail
      obtain ⟨dot, written, rfl, hDot, hWritten⟩ := List.map_eq_cons_iff.mp hDotted
      have hLambda : step ⟨frames, .operands acc⟩ lexeme =
          .ok ⟨frames, .parameters lexeme.start [] acc⟩ := by
        simp only [step, hHead]
      have hParams := reads_parameters frames lexeme.start acc [] params names hNames
      have hBody : step ⟨frames, .parameters lexeme.start params acc⟩ dot =
          .ok ⟨.body lexeme.start params acc :: frames, .operands none⟩ := by
        simp [step, hDot, nonempty]
      obtain ⟨after, hReads, hEnds⟩ :=
        Sequence.reads inner written hWritten (.body lexeme.start params acc :: frames)
      exact ⟨after, Reads.cons hLambda (hParams.append (Reads.cons hBody hReads)), hEnds⟩

/-- Operands are applied from left to right, one at a time. -/
theorem Spine.reads {tokens : List Token} {t : Term} (hSpine : Spine tokens t)
    (lexemes : List Lexeme) (hTokens : lexemes.map Lexeme.token = tokens) (frames : List Frame) :
    Reads ⟨frames, .operands none⟩ lexemes ⟨frames, .operands (some t)⟩ := by
  match hSpine with
  | .single operand => exact Operand.reads operand lexemes hTokens frames none
  | @Spine.snoc _ _ fn _ before operand =>
      obtain ⟨front, last, rfl, hFront, hLast⟩ := List.map_eq_append_iff.mp hTokens
      exact (Spine.reads before front hFront frames).append
        (Operand.reads operand last hLast frames (some fn))

/-- A sequence is a spine, perhaps with an abstraction behind it that takes
the rest. Only in the second case bodies are left open. -/
theorem Sequence.reads {tokens : List Token} {t : Term} (hSequence : Sequence tokens t)
    (lexemes : List Lexeme) (hTokens : lexemes.map Lexeme.token = tokens) (frames : List Frame) :
    ∃ after, Reads ⟨frames, .operands none⟩ lexemes after ∧ after.EndsAs frames t := by
  match hSequence with
  | .spine operands => exact ⟨_, Spine.reads operands lexemes hTokens frames, endsAs_self frames t⟩
  | .abstraction last => exact Abstraction.reads last lexemes hTokens frames none
  | @Sequence.applied _ _ fn _ before last =>
      obtain ⟨front, back, rfl, hFront, hBack⟩ := List.map_eq_append_iff.mp hTokens
      obtain ⟨after, hReads, hEnds⟩ := Abstraction.reads last back hBack frames (some fn)
      exact ⟨after, (Spine.reads before front hFront frames).append hReads, hEnds⟩

end

/-- The operands read so far in one sequence, if there are any. -/
inductive Operands : List Token → Option Term → Prop where
  | none : Operands [] none
  | some {tokens : List Token} {t : Term} (spine : Spine tokens t) : Operands tokens (some t)

/-- The tokens up to the opening of the innermost construct that is still
open. -/
inductive Opened : List Token → List Frame → Prop where
  | nil : Opened [] []
  | paren {outer inner : List Token} {frames : List Frame} {before : Option Term} (opened : Nat)
      (hOuter : Opened outer frames) (hBefore : Operands inner before) :
      Opened (outer ++ (inner ++ [.lparen])) (.paren opened before :: frames)
  | body {outer inner : List Token} {frames : List Frame} {before : Option Term} (lambda : Nat)
      {params : List Name} (nonempty : params ≠ []) (hOuter : Opened outer frames)
      (hBefore : Operands inner before) :
      Opened (outer ++ (inner ++ .lambda :: params.map .ident ++ [.dot]))
        (.body lambda params before :: frames)

inductive Consumed : List Token → Reader → Prop where
  | operands {outer inner : List Token} {frames : List Frame} {acc : Option Term}
      (hOuter : Opened outer frames) (hInner : Operands inner acc) :
      Consumed (outer ++ inner) ⟨frames, .operands acc⟩
  | parameters {outer inner : List Token} {frames : List Frame} {before : Option Term}
      (lambda : Nat) (params : List Name) (hOuter : Opened outer frames)
      (hBefore : Operands inner before) :
      Consumed (outer ++ (inner ++ .lambda :: params.map .ident))
        ⟨frames, .parameters lambda params before⟩

theorem Operands.append_operand {front tokens : List Token} {before : Option Term} {t : Term}
    (hBefore : Operands front before) (hOperand : Operand tokens t) :
    Operands (front ++ tokens) (Option.some (Reader.applyTo before t)) := by
  cases hBefore with
  | none => exact .some (.single hOperand)
  | some spine => exact .some (.snoc spine hOperand)

/-- What an opening can be followed by: a whole sequence, or nothing. -/
inductive Contents : List Token → Option Term → Prop where
  | none : Contents [] none
  | some {tokens : List Token} {t : Term} (sequence : Sequence tokens t) :
      Contents tokens (some t)

/-- The operands of a sequence are a sequence already, without an abstraction
at the end. -/
theorem Operands.contents {tokens : List Token} {acc : Option Term}
    (hOperands : Operands tokens acc) : Contents tokens acc := by
  cases hOperands with
  | none => exact .none
  | some spine => exact .some (.spine spine)

/-- An abstraction behind the operands, however many there are, makes a
sequence of them. -/
theorem Operands.append_abstraction {front tokens : List Token} {before : Option Term} {t : Term}
    (hBefore : Operands front before) (hLast : Abstraction tokens t) :
    Sequence (front ++ tokens) (Reader.applyTo before t) := by
  cases hBefore with
  | none => exact .abstraction hLast
  | some spine => exact .applied spine hLast

/-- Ending the open bodies turns what was read inside of them into one
sequence. Only a parenthesis can be left open. -/
theorem Opened.endBodies {outer inner : List Token} {frames frames' : List Frame}
    {acc acc' : Option Term} {stop : Nat} (hOuter : Opened outer frames)
    (hInner : Contents inner acc) (hEnd : Reader.endBodies stop frames acc = .ok (frames', acc')) :
    ∃ outer' inner', outer ++ inner = outer' ++ inner' ∧ Opened outer' frames' ∧
      Contents inner' acc' ∧
      ∀ lambda params before rest, frames' ≠ .body lambda params before :: rest := by
  induction hOuter generalizing inner acc with
  | nil =>
      cases hEnd
      exact ⟨[], inner, rfl, .nil, hInner, by simp⟩
  | paren opened hOuter hBefore ih =>
      cases hEnd
      exact ⟨_, inner, rfl, .paren opened hOuter hBefore, hInner, by simp⟩
  | @body outer before tokens _ lambda params nonempty hOuter hBefore ih =>
      cases hInner with
      | none => cases hEnd
      | some sequence =>
          have hLast := hBefore.append_abstraction (.intro nonempty sequence)
          obtain ⟨outer', inner', hSplit, hRest⟩ := ih (.some hLast) hEnd
          refine ⟨outer', inner', ?_, hRest⟩
          rw [← hSplit]
          simp

/-- A closing parenthesis makes an operand out of the sequence inside its
pair. -/
theorem Consumed.close {outer inner : List Token} {frames : List Frame} {acc : Option Term}
    {closed : Nat} {reader : Reader} (hOuter : Opened outer frames) (hInner : Operands inner acc)
    (hClose : Reader.close closed frames acc = .ok reader) :
    Consumed (outer ++ inner ++ [.rparen]) reader := by
  rw [Reader.close] at hClose
  cases hEnd : Reader.endBodies closed frames acc with
  | error reason =>
      rw [hEnd] at hClose
      cases hClose
  | ok ended =>
      rcases ended with ⟨frames', acc'⟩
      rw [hEnd] at hClose
      obtain ⟨outer', inner', hSplit, hOuter', hInner', -⟩ := hOuter.endBodies hInner.contents hEnd
      rw [hSplit]
      cases hOuter' with
      | nil => cases hClose
      | body => cases hClose
      | @paren outermost before _ _ opened hOutermost hBefore =>
          cases hInner' with
          | none => cases hClose
          | some sequence =>
              cases hClose
              have hOperands := hBefore.append_operand (.paren sequence)
              have hConsumed := Consumed.operands hOutermost hOperands
              simpa using hConsumed

/-- Each token is added to what the state stands for. There is one case for
every kind of token in each of the two states. -/
theorem Consumed.step {tokens : List Token} {reader reader' : Reader} {lexeme : Lexeme}
    (hConsumed : Consumed tokens reader) (hStep : reader.step lexeme = .ok reader') :
    Consumed (tokens ++ [lexeme.token]) reader' := by
  cases hConsumed with
  | @operands outer inner frames acc hOuter hInner =>
      cases hToken : lexeme.token with
      | ident name =>
          simp only [Reader.step, hToken, Except.ok.injEq] at hStep
          subst hStep
          have hNext := Consumed.operands hOuter (hInner.append_operand (.ident name))
          simpa using hNext
      | lparen =>
          simp only [Reader.step, hToken, Except.ok.injEq] at hStep
          subst hStep
          have hNext := Consumed.operands (.paren lexeme.start hOuter hInner) .none
          simpa using hNext
      | lambda =>
          simp only [Reader.step, hToken, Except.ok.injEq] at hStep
          subst hStep
          have hNext := Consumed.parameters lexeme.start [] hOuter hInner
          simpa using hNext
      | rparen =>
          simp only [Reader.step, hToken] at hStep
          exact Consumed.close hOuter hInner hStep
      | dot => simp [Reader.step, hToken] at hStep
      | other char => simp [Reader.step, hToken] at hStep
  | @parameters outer inner frames before lambda params hOuter hBefore =>
      cases hToken : lexeme.token with
      | ident name =>
          simp only [Reader.step, hToken, Except.ok.injEq] at hStep
          subst hStep
          have hNext := Consumed.parameters lambda (params ++ [name]) hOuter hBefore
          simpa using hNext
      | dot =>
          by_cases hEmpty : params = []
          · simp [Reader.step, hToken, hEmpty] at hStep
          · simp only [Reader.step, hToken, List.isEmpty_iff, hEmpty, if_false,
              Except.ok.injEq] at hStep
            subst hStep
            have hNext := Consumed.operands (.body lambda hEmpty hOuter hBefore) .none
            simpa using hNext
      | _ => simp [Reader.step, hToken] at hStep

/-- By induction on the run, from what each single token adds. -/
theorem Consumed.reads {tokens : List Token} {reader reader' : Reader} {lexemes : List Lexeme}
    (hConsumed : Consumed tokens reader) (hReads : reader.Reads lexemes reader') :
    Consumed (tokens ++ lexemes.map Lexeme.token) reader' := by
  induction lexemes generalizing tokens reader with
  | nil =>
      cases hReads
      simpa using hConsumed
  | cons lexeme rest ih =>
      obtain ⟨next, hStep, hRest⟩ := hReads.of_cons
      simpa using ih (hConsumed.step hStep) hRest

/-- At the end of the text all bodies are ended, and what the state stands for
is one sequence. An open parenthesis would have been an error. -/
theorem Consumed.finish {tokens : List Token} {reader : Reader} {length : Nat} {t : Term}
    (hConsumed : Consumed tokens reader) (hFinish : reader.finish length = .ok t) :
    Sequence tokens t := by
  cases hConsumed with
  | parameters => simp [Reader.finish] at hFinish
  | @operands outer inner frames acc hOuter hInner =>
      simp only [Reader.finish] at hFinish
      cases hEnd : Reader.endBodies length frames acc with
      | error reason =>
          rw [hEnd] at hFinish
          cases hFinish
      | ok ended =>
          rcases ended with ⟨frames', acc'⟩
          rw [hEnd] at hFinish
          obtain ⟨outer', inner', hSplit, hOuter', hInner', hNoBody⟩ :=
            hOuter.endBodies hInner.contents hEnd
          rw [hSplit]
          cases hOuter' with
          | body => exact False.elim (hNoBody _ _ _ _ rfl)
          | paren => cases hFinish
          | nil =>
              cases hInner' with
              | none => cases hFinish
              | some sequence =>
                  cases hFinish
                  exact sequence

/-- The reader gets over every sequence and ends with its term, whatever the
places of the tokens are and whatever length the text has. -/
theorem Sequence.finish {tokens : List Token} {t : Term} (hSequence : Sequence tokens t)
    (lexemes : List Lexeme) (hTokens : lexemes.map Lexeme.token = tokens) (length : Nat) :
    ∃ reader, Reader.start.Reads lexemes reader ∧ reader.finish length = .ok t := by
  obtain ⟨after, hReads, hEnds⟩ := hSequence.reads lexemes hTokens []
  exact ⟨after, hReads, finish_of_endsAs hEnds length⟩

/-- The grammar is unambiguous, because the reader has no choice: both terms
are what it ends with on the same tokens. -/
theorem Sequence.unique {tokens : List Token} {t u : Term} (hFirst : Sequence tokens t)
    (hSecond : Sequence tokens u) : t = u := by
  let lexemes : List Lexeme := tokens.map (⟨·, 0⟩)
  have hTokens : lexemes.map Lexeme.token = tokens := by simp [lexemes, Function.comp_def]
  obtain ⟨first, hReadsFirst, hFinishFirst⟩ := hFirst.finish lexemes hTokens 0
  obtain ⟨second, hReadsSecond, hFinishSecond⟩ := hSecond.finish lexemes hTokens 0
  have hSame : first = second := Except.ok.inj (hReadsFirst.symm.trans hReadsSecond)
  subst hSame
  exact Except.ok.inj (hFinishFirst.symm.trans hFinishSecond)

namespace Term

theorem parse_eq_ok_iff_reads {text : String} {t : Term} :
    parse text = .ok t ↔
      ∃ reader, Reader.start.Reads (Lexeme.scan text) reader ∧
        reader.finish text.length = .ok t := by
  rw [parse]
  cases hReads : (Lexeme.scan text).foldlM Reader.step Reader.start with
  | error reason => simp [Reads, hReads, bind, Except.bind]
  | ok reader => simp [Reads, hReads, bind, Except.bind]

/-- Reading a text succeeds exactly with what its tokens derive. Soundness and
completeness of the reader meet here. -/
theorem parse_eq_ok_iff {text : String} {t : Term} :
    parse text = .ok t ↔ Sequence ((Lexeme.scan text).map Lexeme.token) t := by
  rw [parse_eq_ok_iff_reads]
  constructor
  · rintro ⟨reader, hReads, hFinish⟩
    have hStart : Consumed [] Reader.start := .operands .nil .none
    exact (hStart.reads hReads).finish hFinish
  · intro hSequence
    exact hSequence.finish (Lexeme.scan text) rfl text.length

/-- A text is read as a term exactly if its tokens derive that term as a
sequence, and no token list derives two terms. -/
theorem parse_accepts_exactly_grammar :
    (∀ text t, parse text = .ok t ↔ Sequence ((Lexeme.scan text).map Lexeme.token) t) ∧
      ∀ tokens t u, Sequence tokens t → Sequence tokens u → t = u := by
  constructor
  · intro text t
    exact parse_eq_ok_iff
  · intro tokens t u hFirst hSecond
    exact hFirst.unique hSecond

/-- The abstraction that ends the sequence `f λx y. y x` takes two parameters
and the whole rest. -/
theorem parse_accepts_last_abstraction :
    let t := app (var "f") (abs "x" (abs "y" (app (var "y") (var "x"))))
    let tokens : List Token :=
      [.ident "f", .lambda, .ident "x", .ident "y", .dot, .ident "y", .ident "x"]
    (Lexeme.scan "f λx y. y x").map Lexeme.token = tokens ∧ Sequence tokens t ∧
      parse "f λx y. y x" = .ok t ∧ ∀ u, Sequence tokens u → t = u := by
  intro t tokens
  have hTokens : (Lexeme.scan "f λx y. y x").map Lexeme.token = tokens := by decide +kernel
  have hBody : Sequence [.ident "y", .ident "x"] (app (var "y") (var "x")) :=
    .spine (.snoc (.single (.ident "y")) (.ident "x"))
  have hParams : ["x", "y"] ≠ [] := List.cons_ne_nil "x" ["y"]
  have hSequence : Sequence tokens t := .applied (.single (.ident "f")) (.intro hParams hBody)
  have hParse : parse "f λx y. y x" = .ok t := by
    rw [parse_accepts_exactly_grammar.1, hTokens]
    exact hSequence
  refine ⟨hTokens, hSequence, hParse, ?_⟩
  intro u hOther
  exact parse_accepts_exactly_grammar.2 tokens t u hSequence hOther

end Term

end LambdaDiagram
