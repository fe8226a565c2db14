import LambdaDiagram.Proofs.Grammar.Rejection
import LambdaDiagram.Proofs.Grammar.Tiling

/-! Matching of parentheses in a text, without regard to anything else in it. A text that breaks off
inside of parentheses is a chain of balanced pieces with an open parenthesis between any two of them,
and the innermost open one is the last that has no partner. -/
namespace LambdaDiagram.Text

/-- Every parenthesis of the text has its partner in it. -/
inductive Balanced : List Char → Prop
  | nil : Balanced []
  | other {c : Char} {rest : List Char} (hOpen : c ≠ '(') (hClose : c ≠ ')')
      (hRest : Balanced rest) : Balanced (c :: rest)
  | pair {inner rest : List Char} (hInner : Balanced inner) (hRest : Balanced rest) :
      Balanced ('(' :: (inner ++ ')' :: rest))

/-- An opening and a closing parenthesis are partners when the text between
them is balanced. -/
def Partners (chars : List Char) (opened closed : Nat) : Prop :=
  ∃ front inner rest, chars = front ++ '(' :: (inner ++ ')' :: rest) ∧ Balanced inner ∧
    opened = front.length ∧ closed = front.length + 1 + inner.length

def Paired (chars : List Char) (index : Nat) : Prop :=
  ∃ opened closed, Partners chars opened closed ∧ (index = opened ∨ index = closed)

def LeftOpen (chars : List Char) (index : Nat) : Prop :=
  chars[index]? = some '(' ∧ ¬ Paired chars index

/-- A character of a text that is put together around `c` stands before `c`,
or is `c`, or stands behind it. -/
theorem getElem?_append_cons_cases {front back : List Char} {c d : Char} {index : Nat}
    (hChar : (front ++ c :: back)[index]? = some d) :
    front[index]? = some d ∨ index = front.length ∧ d = c ∨
      ∃ offset, index = front.length + 1 + offset ∧ back[offset]? = some d := by
  rcases Nat.lt_trichotomy index front.length with hBefore | rfl | hBehind
  · rw [List.getElem?_append_left hBefore] at hChar
    exact Or.inl hChar
  · rw [List.getElem?_append_right (Nat.le_refl _), Nat.sub_self, List.getElem?_cons_zero] at hChar
    exact Or.inr (Or.inl ⟨rfl, (Option.some.inj hChar).symm⟩)
  · obtain ⟨offset, rfl⟩ := Nat.exists_eq_add_of_lt hBehind
    rw [Nat.add_assoc, List.getElem?_append_right (Nat.le_add_right ..), Nat.add_sub_cancel_left,
      List.getElem?_cons_succ] at hChar
    exact Or.inr (Or.inr ⟨offset, by omega, hChar⟩)

theorem Partners.getElem?_closed {chars : List Char} {opened closed : Nat}
    (hPartners : Partners chars opened closed) : chars[closed]? = some ')' := by
  obtain ⟨front, inner, rest, rfl, -, -, rfl⟩ := hPartners
  rw [Nat.add_assoc, List.getElem?_append_right (Nat.le_add_right ..), Nat.add_sub_cancel_left,
    Nat.add_comm, List.getElem?_cons_succ, List.getElem?_append_right (Nat.le_refl _), Nat.sub_self,
    List.getElem?_cons_zero]

theorem Paired.append {chars : List Char} {index : Nat} (hPaired : Paired chars index)
    (back : List Char) : Paired (chars ++ back) index := by
  obtain ⟨opened, closed, ⟨front, inner, rest, rfl, hInner, hOpened, hClosed⟩, hIndex⟩ := hPaired
  refine ⟨opened, closed, ⟨front, inner, rest ++ back, ?_, hInner, hOpened, hClosed⟩, hIndex⟩
  simp

theorem Paired.prepend {chars : List Char} {index : Nat} (hPaired : Paired chars index)
    (before : List Char) : Paired (before ++ chars) (before.length + index) := by
  obtain ⟨opened, closed, ⟨front, inner, rest, rfl, hInner, rfl, rfl⟩, hIndex⟩ := hPaired
  refine ⟨_, _, ⟨before ++ front, inner, rest, ?_, hInner, rfl, rfl⟩, ?_⟩
  · rw [List.append_assoc]
  · rw [List.length_append]
    omega

/-- The number of parentheses that are open after some characters, if `depth`
of them were open before. It is `none` if a closing parenthesis finds none
open. -/
def depthAfter (depth : Nat) : List Char → Option Nat
  | [] => some depth
  | c :: rest =>
    if c = '(' then depthAfter (depth + 1) rest
    else if c = ')' then
      if depth = 0 then none else depthAfter (depth - 1) rest
    else depthAfter depth rest

namespace Balanced

/-- Characters of a class without parentheses are balanced in any order. -/
theorem of_class (p : Char → Bool) (hOpen : p '(' = false) (hClose : p ')' = false)
    {chars : List Char} (hChars : ∀ c ∈ chars, p c = true) : Balanced chars := by
  induction chars with
  | nil => exact .nil
  | cons c rest ih =>
      obtain ⟨hHead, hTail⟩ := List.forall_mem_cons.mp hChars
      refine .other ?_ ?_ (ih hTail)
      · intro hSame
        rw [hSame, hOpen] at hHead
        cases hHead
      · intro hSame
        rw [hSame, hClose] at hHead
        cases hHead

theorem append {front back : List Char} (hFront : Balanced front) (hBack : Balanced back) :
    Balanced (front ++ back) := by
  induction hFront with
  | nil => exact hBack
  | other hOpen hClose hRest ih => exact .other hOpen hClose ih
  | pair hInner hRest ihInner ihRest =>
      rw [List.cons_append, List.append_assoc, List.cons_append]
      exact .pair hInner ihRest

/-- A balanced text leaves as many parentheses open as there were before it,
and never closes one of these. -/
theorem depthAfter_append {front : List Char} (hFront : Balanced front) (depth : Nat)
    (back : List Char) : depthAfter depth (front ++ back) = depthAfter depth back := by
  induction hFront generalizing depth back with
  | nil => rfl
  | other hOpen hClose hRest ih =>
      rw [List.cons_append, depthAfter, if_neg hOpen, if_neg hClose, ih]
  | pair hInner hRest ihInner ihRest =>
      rw [List.cons_append, depthAfter, if_pos rfl, List.append_assoc, ihInner, List.cons_append,
        depthAfter, if_neg (by decide), if_pos rfl, if_neg (Nat.succ_ne_zero depth),
        Nat.add_sub_cancel, ihRest]

/-- A closing parenthesis of a balanced text has its partner before it, so
what stands before it is not balanced by itself. -/
theorem not_balanced_before_close {front back : List Char}
    (hText : Balanced (front ++ ')' :: back)) : ¬ Balanced front := by
  intro hFront
  have hDepth : depthAfter 0 (front ++ ')' :: back) = some 0 := by
    have hWhole := hText.depthAfter_append 0 []
    rwa [List.append_nil] at hWhole
  rw [hFront.depthAfter_append] at hDepth
  cases hDepth

/-- Every parenthesis of a balanced text has its partner. By induction on the
text: the partners of an inner piece are partners in the whole. -/
theorem paired {chars : List Char} (hChars : Balanced chars) {index : Nat} {c : Char}
    (hChar : chars[index]? = some c) (hParen : c = '(' ∨ c = ')') : Paired chars index := by
  induction hChars generalizing index with
  | nil => cases hChar
  | @other first rest hOpen hClose hRest ih =>
      cases index with
      | zero =>
          obtain rfl : first = c := Option.some.inj hChar
          exact absurd hParen (not_or.mpr ⟨hOpen, hClose⟩)
      | succ index =>
          rw [Nat.add_comm]
          exact (ih hChar).prepend [first]
  | @pair inner rest hInner hRest ihInner ihRest =>
      have hOuter : Partners ('(' :: (inner ++ ')' :: rest)) 0 (1 + inner.length) :=
        ⟨[], inner, rest, rfl, hInner, rfl, by rw [List.length_nil, Nat.zero_add]⟩
      cases index with
      | zero => exact ⟨_, _, hOuter, Or.inl rfl⟩
      | succ index =>
          rw [Nat.add_comm]
          rcases getElem?_append_cons_cases hChar with hBefore | ⟨rfl, -⟩ | ⟨offset, rfl, hBehind⟩
          · exact ((ihInner hBefore).append (')' :: rest)).prepend ['(']
          · exact ⟨_, _, hOuter, Or.inr rfl⟩
          · have hMoved := (ihRest hBehind).prepend ('(' :: (inner ++ [')']))
            simpa [Nat.add_comm, Nat.add_left_comm] using hMoved

end Balanced

/-- The text is a chain of balanced pieces with an open parenthesis between
any two of them. The indices of the open ones are listed from the innermost
outwards. -/
inductive Nested : List Char → List Nat → Prop
  | flat {chars : List Char} (hFlat : Balanced chars) : Nested chars []
  | inside {outer inner : List Char} {opened : List Nat} (hOuter : Nested outer opened)
      (hInner : Balanced inner) : Nested (outer ++ '(' :: inner) (outer.length :: opened)

namespace Nested

variable {chars : List Char} {opened : List Nat}

theorem append_balanced (hNested : Nested chars opened) {more : List Char}
    (hMore : Balanced more) : Nested (chars ++ more) opened := by
  cases hNested with
  | flat hFlat => exact .flat (hFlat.append hMore)
  | inside hOuter hInner =>
      rw [List.append_assoc, List.cons_append]
      exact .inside hOuter (hInner.append hMore)

/-- An opening parenthesis begins a new piece and is the innermost one from
now on. -/
theorem append_open (hNested : Nested chars opened) :
    Nested (chars ++ ['(']) (chars.length :: opened) :=
  .inside hNested .nil

/-- A closing parenthesis takes the innermost open one for its partner. The
two last pieces become one. -/
theorem append_close {innermost : Nat} (hNested : Nested chars (innermost :: opened)) :
    Nested (chars ++ [')']) opened := by
  cases hNested with
  | inside hOuter hInner =>
      rw [List.append_assoc, List.cons_append]
      exact hOuter.append_balanced (.pair hInner .nil)

/-- In a chain of balanced pieces no closing parenthesis is without its
partner. -/
theorem paired_of_close (hNested : Nested chars opened) {index : Nat}
    (hClose : chars[index]? = some ')') : Paired chars index := by
  induction hNested generalizing index with
  | flat hFlat => exact hFlat.paired hClose (Or.inr rfl)
  | @inside outer inner opened hOuter hInner ih =>
      rcases getElem?_append_cons_cases hClose with hBefore | ⟨-, hOpen⟩ | ⟨offset, rfl, hBehind⟩
      · exact (ih hBefore).append ('(' :: inner)
      · cases hOpen
      · have hMoved := (hInner.paired hBehind (Or.inr rfl)).prepend (outer ++ ['('])
        simpa using hMoved

/-- The innermost of the open parentheses is the last one in the text. It has
no partner, since a balanced piece follows it up to the end. -/
theorem last_leftOpen {innermost : Nat} (hNested : Nested chars (innermost :: opened)) :
    LeftOpen chars innermost ∧ ∀ index, LeftOpen chars index → index ≤ innermost := by
  cases hNested with
  | @inside outer inner _ hOuter hInner =>
      have hOpen : (outer ++ '(' :: inner)[outer.length]? = some '(' := by simp
      refine ⟨⟨hOpen, ?_⟩, ?_⟩
      · rintro ⟨first, second, hPartners, rfl | rfl⟩
        · obtain ⟨front, between, rest, hText, hBetween, hLength, -⟩ := hPartners
          obtain ⟨-, hTail⟩ := List.append_inj hText hLength
          obtain rfl : inner = between ++ ')' :: rest := (List.cons.inj hTail).2
          exact hInner.not_balanced_before_close hBetween
        · rw [hPartners.getElem?_closed] at hOpen
          cases hOpen
      · rintro index ⟨hOther, hAlone⟩
        rcases getElem?_append_cons_cases hOther with hBefore | ⟨rfl, -⟩ | ⟨offset, rfl, hBehind⟩
        · obtain ⟨hLess, -⟩ := List.getElem?_eq_some_iff.mp hBefore
          omega
        · exact Nat.le_refl _
        · have hMoved := (hInner.paired hBehind (Or.inl rfl)).prepend (outer ++ ['('])
          exact absurd (by simpa using hMoved) hAlone

end Nested

end LambdaDiagram.Text

/-! The places that the reader remembers. All of them are places of tokens that it has taken, and
those of its open parentheses are the ones that matching the parentheses of the bare text leaves
open. -/
namespace LambdaDiagram

namespace Reader

def indices (reader : Reader) : List Nat :=
  match reader.focus with
  | .operands _ => reader.frames.map Frame.index
  | .parameters lambda _ _ => lambda :: reader.frames.map Frame.index

def openParens : List Frame → List Nat
  | [] => []
  | .paren opened _ :: frames => opened :: openParens frames
  | .body _ _ _ :: frames => openParens frames

theorem openParens_endBodies {stop : Nat} {frames frames' : List Frame} {acc acc' : Option Term}
    (hEnd : endBodies stop frames acc = .ok (frames', acc')) :
    openParens frames' = openParens frames := by
  fun_induction endBodies stop frames acc with
  | case1 lambda params before frames => cases hEnd
  | case2 lambda params before frames body ih => exact ih hEnd
  | case3 frames acc hNoBody =>
      cases hEnd
      rfl

theorem mem_index_of_mem_openParens {frames : List Frame} {index : Nat}
    (hMem : index ∈ openParens frames) : index ∈ frames.map Frame.index := by
  fun_induction openParens frames with
  | case1 => exact hMem
  | case2 opened before frames ih =>
      rcases List.mem_cons.mp hMem with rfl | hOuter
      · exact List.mem_cons_self
      · exact List.mem_cons_of_mem _ (ih hOuter)
  | case3 lambda params before frames ih => exact List.mem_cons_of_mem _ (ih hMem)

theorem mem_indices_of_mem_frames {reader : Reader} {index : Nat}
    (hMem : index ∈ reader.frames.map Frame.index) : index ∈ reader.indices := by
  rcases reader with ⟨frames, acc | ⟨lambda, params, before⟩⟩
  · exact hMem
  · exact List.mem_cons_of_mem _ hMem

/-- A closing parenthesis takes off the innermost open one, with all frames
inside of it. -/
theorem close_ok {closed : Nat} {frames : List Frame} {acc : Option Term} {next : Reader}
    (hClose : close closed frames acc = .ok next) :
    next.indices ⊆ frames.map Frame.index ∧
      ∃ innermost, openParens frames = innermost :: openParens next.frames := by
  rw [close] at hClose
  cases hEnd : endBodies closed frames acc with
  | error reason =>
      rw [hEnd] at hClose
      cases hClose
  | ok ended =>
      rw [hEnd] at hClose
      simp only [bind, Except.bind] at hClose
      split at hClose
      next opened before outer inner =>
        cases hClose
        obtain ⟨hSuffix, -⟩ := endBodies_ok hEnd
        refine ⟨?_, opened, (openParens_endBodies hEnd).symm⟩
        exact List.map_subset _ (List.subset_of_cons_subset hSuffix.subset)
      next => cases hClose
      next => cases hClose

/-- What taking a token does to the places that a state remembers. Only the
place of the token can be new, and only parentheses change which parentheses
are open. -/
structure Tracks (lexeme : Lexeme) (reader next : Reader) : Prop where
  indices : ∀ index ∈ next.indices, index = lexeme.start ∨ index ∈ reader.indices
  lparen : lexeme.token = .lparen →
    openParens next.frames = lexeme.start :: openParens reader.frames
  rparen : lexeme.token = .rparen →
    ∃ innermost, openParens reader.frames = innermost :: openParens next.frames
  other : lexeme.token ≠ .lparen → lexeme.token ≠ .rparen →
    openParens next.frames = openParens reader.frames

/-- The reader does this at every token that it takes. The tokens are told
apart once and for all here. -/
theorem tracks_step {reader next : Reader} {lexeme : Lexeme}
    (hStep : reader.step lexeme = .ok next) : Tracks lexeme reader next := by
  rcases reader with ⟨frames, acc | ⟨lambda, params, before⟩⟩
  · cases hToken : lexeme.token with
    | ident name =>
        simp only [step, hToken, Except.ok.injEq] at hStep
        subst hStep
        exact ⟨fun index hMem => Or.inr hMem, by simp [hToken], by simp [hToken], fun _ _ => rfl⟩
    | lparen =>
        simp only [step, hToken, Except.ok.injEq] at hStep
        subst hStep
        exact ⟨fun index hMem => List.mem_cons.mp hMem, fun _ => rfl, by simp [hToken],
          by simp [hToken]⟩
    | lambda =>
        simp only [step, hToken, Except.ok.injEq] at hStep
        subst hStep
        exact ⟨fun index hMem => List.mem_cons.mp hMem, by simp [hToken], by simp [hToken],
          fun _ _ => rfl⟩
    | rparen =>
        simp only [step, hToken] at hStep
        obtain ⟨hIndices, hOpened⟩ := close_ok hStep
        exact ⟨fun index hMem => Or.inr (hIndices hMem), by simp [hToken], fun _ => hOpened,
          by simp [hToken]⟩
    | dot => simp [step, hToken] at hStep
    | other char => simp [step, hToken] at hStep
  · cases hToken : lexeme.token with
    | ident name =>
        simp only [step, hToken, Except.ok.injEq] at hStep
        subst hStep
        exact ⟨fun index hMem => Or.inr hMem, by simp [hToken], by simp [hToken], fun _ _ => rfl⟩
    | dot =>
        by_cases hEmpty : params = []
        · simp [step, hToken, hEmpty] at hStep
        · simp only [step, hToken, List.isEmpty_iff, hEmpty, if_false, Except.ok.injEq] at hStep
          subst hStep
          exact ⟨fun index hMem => Or.inr hMem, by simp [hToken], by simp [hToken], fun _ _ => rfl⟩
    | _ => simp [step, hToken] at hStep

/-- After a run over some tokens every remembered place was remembered before
or belongs to one of the tokens. -/
theorem mem_indices_of_reads {reader after : Reader} {lexemes : List Lexeme}
    (hReads : reader.Reads lexemes after) {index : Nat} (hMem : index ∈ after.indices) :
    index ∈ reader.indices ∨ ∃ lexeme ∈ lexemes, index = lexeme.start := by
  induction lexemes generalizing reader with
  | nil =>
      cases hReads
      exact Or.inl hMem
  | cons lexeme rest ih =>
      obtain ⟨next, hStep, hRest⟩ := hReads.of_cons
      rcases ih hRest with hNext | ⟨later, hLater, hStart⟩
      · rcases (tracks_step hStep).indices index hNext with hNew | hOld
        · exact Or.inr ⟨lexeme, List.mem_cons_self, hNew⟩
        · exact Or.inl hOld
      · exact Or.inr ⟨later, List.mem_cons_of_mem _ hLater, hStart⟩

theorem exists_start_of_mem_indices {after : Reader} {lexemes : List Lexeme}
    (hReads : start.Reads lexemes after) {index : Nat} (hMem : index ∈ after.indices) :
    ∃ lexeme ∈ lexemes, index = lexeme.start := by
  rcases mem_indices_of_reads hReads hMem with hNone | hSome
  · cases hNone
  · exact hSome

end Reader

open Reader

/-- What is open after one more token is what is open after the characters of
that token. -/
theorem Reader.Tracks.nested {token : Token} {reader next : Reader} {before piece rest : List Char}
    (hTracks : Tracks ⟨token, before.length⟩ reader next) (hSpells : Lexeme.Spells token piece rest)
    (hNested : Text.Nested before (openParens reader.frames)) :
    Text.Nested (before ++ piece) (openParens next.frames) := by
  cases hSpells with
  | @letter c primes rest hAlpha hPrimes hRest =>
      rw [hTracks.other (by simp) (by simp)]
      apply hNested.append_balanced
      apply Text.Balanced.of_class (fun p => p.isAlpha || Lexeme.isPrime p) (by decide) (by decide)
      intro p hMem
      rcases List.mem_cons.mp hMem with rfl | hPrime
      · rw [hAlpha, Bool.true_or]
      · rw [hPrimes p hPrime, Bool.or_true]
  | @mark c rest hBlank hAlpha =>
      by_cases hOpen : c = '('
      · subst hOpen
        rw [hTracks.lparen rfl]
        exact hNested.append_open
      · by_cases hClose : c = ')'
        · subst hClose
          obtain ⟨innermost, hOpened⟩ := hTracks.rparen rfl
          rw [hOpened] at hNested
          exact hNested.append_close
        · rw [hTracks.other (fun hToken => hOpen (Lexeme.eq_of_symbol_eq_lparen hToken))
            (fun hToken => hClose (Lexeme.eq_of_symbol_eq_rparen hToken))]
          exact hNested.append_balanced (.other hOpen hClose .nil)

/-- Along a text, the parentheses that the reader holds open are those that
its characters open and do not close. -/
theorem Lexeme.Tiles.nested {start : Nat} {chars : List Char} {lexemes : List Lexeme}
    (hTiles : Tiles start chars lexemes) {before : List Char} {reader after : Reader}
    (hStart : start = before.length) (hNested : Text.Nested before (openParens reader.frames))
    (hReads : reader.Reads lexemes after) :
    Text.Nested (before ++ chars) (openParens after.frames) := by
  induction hTiles generalizing before reader with
  | done start =>
      cases hReads
      rwa [List.append_nil]
  | @blank start c rest lexemes hBlank hTiles ih =>
      have hNeutral : Text.Balanced [c] :=
        .of_class Text.isBlank (by decide) (by decide) (by simpa using hBlank)
      have hLength : start + 1 = (before ++ [c]).length := by
        rw [List.length_append, hStart, List.length_singleton]
      have hNext := ih hLength (hNested.append_balanced hNeutral) hReads
      rwa [List.append_assoc] at hNext
  | @lexeme start token piece rest lexemes hSpells hTiles ih =>
      obtain ⟨next, hStep, hRest⟩ := hReads.of_cons
      subst hStart
      have hLength : before.length + piece.length = (before ++ piece).length :=
        List.length_append.symm
      have hNext := ih hLength ((tracks_step hStep).nested hSpells hNested) hRest
      rwa [List.append_assoc] at hNext

/-- Once the reader has taken a whole text, its open parentheses are those
that matching leaves open in that text. -/
theorem nested_of_reads {text : String} {after : Reader}
    (hReads : start.Reads (Lexeme.scan text) after) :
    Text.Nested text.toList (openParens after.frames) :=
  (Lexeme.tiles_scanFrom 0 text.toList).nested rfl (.flat .nil) hReads

end LambdaDiagram
