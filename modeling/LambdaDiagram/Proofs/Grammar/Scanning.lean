import LambdaDiagram.Grammar

/-! The tokens of a text without their places. The scan decides each token from the characters right
of it, so the tokens of a text are given by one equation for each kind of first character. -/
namespace LambdaDiagram

/-- A name that an expression can spell: one letter, then quote marks only. -/
def isSpellable (name : Name) : Bool :=
  match name.toList with
  | [] => false
  | c :: rest => c.isAlpha && rest.all Lexeme.isPrime

namespace Lexeme

def tokens (chars : List Char) : List Token :=
  (scanFrom 0 chars).map token

/-- Where the scan starts to count moves the places of the tokens and nothing
else. -/
theorem map_token_scanFrom (start : Nat) (chars : List Char) :
    (scanFrom start chars).map token = tokens chars := by
  suffices hAny : ∀ other, (scanFrom start chars).map token = (scanFrom other chars).map token from
    hAny 0
  intro other
  fun_induction scanFrom start chars generalizing other with
  | case1 => simp [scanFrom]
  | case2 start c rest hBlank ih =>
      rw [scanFrom, if_pos hBlank]
      exact ih _
  | case3 start c rest hBlank hAlpha primes ih =>
      rw [scanFrom, if_neg hBlank, if_pos hAlpha]
      simp only [List.map_cons]
      rw [ih _]
  | case4 start c rest hBlank hAlpha ih =>
      rw [scanFrom, if_neg hBlank, if_neg hAlpha]
      simp only [List.map_cons]
      rw [ih _]

theorem map_token_scan (text : String) : (scan text).map token = tokens text.toList :=
  map_token_scanFrom 0 text.toList

@[simp] theorem tokens_nil : tokens [] = [] := by
  simp [tokens, scanFrom]

theorem tokens_blank {c : Char} (rest : List Char) (hBlank : Text.isBlank c = true) :
    tokens (c :: rest) = tokens rest := by
  rw [tokens, scanFrom, if_pos hBlank, map_token_scanFrom]

/-- Any other character than a blank or a letter is a token by itself, also
one that means nothing. -/
theorem tokens_symbol {c : Char} (rest : List Char) (hBlank : Text.isBlank c = false)
    (hAlpha : c.isAlpha = false) : tokens (c :: rest) = symbol c :: tokens rest := by
  rw [tokens, scanFrom, if_neg (by simp [hBlank]), if_neg (by simp [hAlpha]), List.map_cons,
    map_token_scanFrom]

/-- The characters of the notation other than letters stand for themselves. -/
theorem tokens_mark {c : Char} (rest : List Char) (hMark : c ∈ ['(', ')', '.', 'λ', '\\']) :
    tokens (c :: rest) = symbol c :: tokens rest := by
  simp only [List.mem_cons, List.not_mem_nil, or_false] at hMark
  rcases hMark with rfl | rfl | rfl | rfl | rfl <;> exact tokens_symbol rest rfl rfl

/-- No letter is a blank, so the scan never passes over the beginning of a
name. -/
theorem isBlank_of_isAlpha {c : Char} (hAlpha : c.isAlpha = true) : Text.isBlank c = false := by
  have hRange : 65 ≤ c.toNat ∧ c.toNat ≤ 122 := by
    rcases (Bool.or_eq_true _ _).mp hAlpha with hUpper | hLower
    · have hBounds : 65 ≤ c.toNat ∧ c.toNat ≤ 90 := of_decide_eq_true hUpper
      omega
    · have hBounds := (Bool.and_eq_true _ _).mp hLower
      have hLeast : 97 ≤ c.toNat := of_decide_eq_true hBounds.1
      have hGreatest : c.toNat ≤ 122 := of_decide_eq_true hBounds.2
      omega
  simp [Text.isBlank, Text.inRanges, Text.blankRanges]
  omega

theorem isBlank_of_isPrime {c : Char} (hPrime : isPrime c = true) : Text.isBlank c = false := by
  obtain rfl : c = '\'' := beq_iff_eq.mp hPrime
  decide

/-- A letter takes all the quote marks right behind it into one identifier. -/
theorem tokens_letter {c : Char} (rest : List Char) (hAlpha : c.isAlpha = true) :
    tokens (c :: rest) =
      .ident (String.ofList (c :: rest.takeWhile isPrime)) :: tokens (rest.dropWhile isPrime) := by
  rw [tokens, scanFrom, if_neg (by simp [isBlank_of_isAlpha hAlpha]), if_pos hAlpha,
    List.map_cons, map_token_scanFrom]

/-- A spellable name is one token, unless a quote mark follows that would
belong to it too. -/
theorem tokens_name {name : Name} (rest : List Char) (hName : isSpellable name = true)
    (hRest : ∀ c ∈ rest.head?, isPrime c = false) :
    tokens (name.toList ++ rest) = .ident name :: tokens rest := by
  cases hChars : name.toList with
  | nil => simp [isSpellable, hChars] at hName
  | cons c primes =>
      simp only [isSpellable, hChars, Bool.and_eq_true, List.all_eq_true] at hName
      have hTake : rest.takeWhile isPrime = [] ∧ rest.dropWhile isPrime = rest := by
        cases rest with
        | nil => exact ⟨rfl, rfl⟩
        | cons next rest =>
            have hNext : isPrime next = false := hRest next rfl
            simp [hNext]
      rw [List.cons_append, tokens_letter _ hName.1, List.takeWhile_append_of_pos hName.2,
        List.dropWhile_append_of_pos hName.2, hTake.1, hTake.2, List.append_nil, ← hChars,
        String.ofList_toList]

/-- A single character is never taken for an identifier by the table of
symbols. Identifiers come from letters alone. -/
theorem symbol_ne_ident (c : Char) (name : Name) : symbol c ≠ .ident name := by
  unfold symbol
  repeat' split
  all_goals simp

/-- The scan makes identifiers of spellable names only. -/
theorem isSpellable_of_mem_tokens {chars : List Char} {name : Name}
    (hMem : .ident name ∈ tokens chars) : isSpellable name = true := by
  rw [tokens] at hMem
  generalize 0 = start at hMem
  fun_induction scanFrom start chars with
  | case1 => simp at hMem
  | case2 start c rest hBlank ih => exact ih hMem
  | case3 start c rest hBlank hAlpha primes ih =>
      rcases List.mem_cons.mp hMem with hSame | hRest
      · obtain rfl : name = String.ofList (c :: primes) := Token.ident.inj hSame
        have hPrimes : primes.all isPrime = true := List.all_takeWhile
        simp [isSpellable, hAlpha, hPrimes]
      · exact ih hRest
  | case4 start c rest hBlank hAlpha ih =>
      rcases List.mem_cons.mp hMem with hSame | hRest
      · exact False.elim (symbol_ne_ident c name hSame.symm)
      · exact ih hRest

end Lexeme

end LambdaDiagram

/-! Where a text can be cut without changing its tokens. A cut may not fall between a letter and one
of its quote marks; in particular it may fall on both sides of a token that is no identifier. -/
namespace LambdaDiagram.Lexeme

/-- Nothing that could continue an identifier stands first. -/
def NoPrimeFirst (chars : List Char) : Prop :=
  ∀ c ∈ chars.head?, isPrime c = false

theorem noPrimeFirst_dropWhile (chars : List Char) :
    NoPrimeFirst (chars.dropWhile isPrime) := by
  intro c hHead
  have hFirst := List.head?_dropWhile_not isPrime chars
  rw [Option.mem_def.mp hHead] at hFirst
  exact hFirst

/-- Putting two such texts together gives one. The second condition matters if
the first text is empty. -/
theorem NoPrimeFirst.append {front back : List Char} (hFront : NoPrimeFirst front)
    (hBack : NoPrimeFirst back) : NoPrimeFirst (front ++ back) := by
  cases front with
  | nil => exact hBack
  | cons c front => exact hFront

/-- Only the first of the characters matters, so those behind a place may be
replaced by any others. -/
theorem NoPrimeFirst.replace {front back : List Char} {c : Char}
    (hChars : NoPrimeFirst (front ++ c :: back)) :
    NoPrimeFirst front ∧ ∀ rest, NoPrimeFirst (front ++ c :: rest) := by
  cases front with
  | nil =>
      refine ⟨?_, fun rest => hChars⟩
      intro c hHead
      cases hHead
  | cons first front => exact ⟨hChars, fun rest => hChars⟩

/-- An identifier that ends where its quote marks end is one token, and the
scan goes on behind it. -/
theorem scanFrom_letter (start : Nat) {c : Char} {primes rest : List Char}
    (hAlpha : c.isAlpha = true) (hPrimes : ∀ p ∈ primes, isPrime p = true)
    (hRest : NoPrimeFirst rest) :
    scanFrom start (c :: (primes ++ rest)) =
      ⟨.ident (String.ofList (c :: primes)), start⟩ ::
        scanFrom (start + 1 + primes.length) rest := by
  have hNone : rest.takeWhile isPrime = [] ∧ rest.dropWhile isPrime = rest := by
    cases rest with
    | nil => exact ⟨rfl, rfl⟩
    | cons next rest =>
        have hNext : isPrime next = false := hRest next rfl
        simp [hNext]
  rw [scanFrom, if_neg (by simp [isBlank_of_isAlpha hAlpha]), if_pos hAlpha,
    List.takeWhile_append_of_pos hPrimes, List.dropWhile_append_of_pos hPrimes, hNone.1, hNone.2,
    List.append_nil]

/-- A text may be cut before any character that is no quote mark. The two
parts are then scanned on their own, the second one with its places moved by
the length of the first. -/
theorem scanFrom_append (start : Nat) (front : List Char) {back : List Char}
    (hBack : NoPrimeFirst back) :
    scanFrom start (front ++ back) =
      scanFrom start front ++ scanFrom (start + front.length) back := by
  fun_induction scanFrom start front with
  | case1 start => simp
  | case2 start c rest hBlank ih =>
      rw [List.cons_append, scanFrom, if_pos hBlank, ih, List.length_cons,
        show start + (rest.length + 1) = start + 1 + rest.length by omega]
  | case3 start c rest hBlank hAlpha primes ih =>
      have hRest : rest = primes ++ rest.dropWhile isPrime := List.takeWhile_append_dropWhile.symm
      have hLength : rest.length = primes.length + (rest.dropWhile isPrime).length := by
        rw [← List.length_append, ← hRest]
      have hText : c :: rest ++ back = c :: (primes ++ (rest.dropWhile isPrime ++ back)) := by
        rw [← List.append_assoc, ← hRest]
        rfl
      have hPrimes : ∀ p ∈ primes, isPrime p = true := List.all_eq_true.mp List.all_takeWhile
      rw [hText, scanFrom_letter start hAlpha hPrimes ((noPrimeFirst_dropWhile rest).append hBack),
        ih, List.cons_append, List.length_cons, hLength,
        show start + (primes.length + (rest.dropWhile isPrime).length + 1) =
          start + 1 + primes.length + (rest.dropWhile isPrime).length by omega]
  | case4 start c rest hBlank hAlpha ih =>
      rw [List.cons_append, scanFrom, if_neg hBlank, if_neg hAlpha, ih, List.length_cons,
        List.cons_append, show start + (rest.length + 1) = start + 1 + rest.length by omega]

theorem scanFrom_blanks (start : Nat) {blanks : List Char}
    (hBlanks : blanks.all Text.isBlank = true) (rest : List Char) :
    scanFrom start (blanks ++ rest) = scanFrom (start + blanks.length) rest := by
  induction blanks generalizing start with
  | nil => rfl
  | cons c blanks ih =>
      rw [List.all_cons, Bool.and_eq_true] at hBlanks
      rw [List.cons_append, scanFrom, if_pos hBlanks.1, ih (start + 1) hBlanks.2, List.length_cons,
        show start + 1 + blanks.length = start + (blanks.length + 1) by omega]

theorem scan_of_isBlankText {text : String} (hBlank : Text.isBlankText text = true) :
    scan text = [] := by
  have hSkip := scanFrom_blanks 0 hBlank []
  rwa [List.append_nil, scanFrom] at hSkip

/-- Blanks can follow an identifier without becoming part of it, whatever
stands behind them. -/
theorem noPrimeFirst_blanks {blanks : List Char} (hBlanks : blanks.all Text.isBlank = true) :
    NoPrimeFirst blanks := by
  intro c hHead
  have hBlank : Text.isBlank c = true := List.all_eq_true.mp hBlanks c (List.mem_of_mem_head? hHead)
  cases hPrime : isPrime c with
  | false => rfl
  | true => simp [isBlank_of_isPrime hPrime] at hBlank

/-- The lexeme is one character of the text. The tokens before it are those of
the text before it, and the text behind it can be replaced without changing
them. -/
def CutAt (start : Nat) (chars : List Char) (before : List Lexeme) (lexeme : Lexeme) : Prop :=
  ∃ front c back, chars = front ++ c :: back ∧ lexeme.start = start + front.length ∧
    lexeme.token = symbol c ∧ scanFrom start front = before ∧
    ∀ rest, scanFrom start (front ++ c :: rest) =
      before ++ lexeme :: scanFrom (start + front.length + 1) rest

/-- A cut stays one when a piece of text is put in front, if that piece is
scanned on its own before the texts in question. -/
theorem CutAt.prepend {start : Nat} (piece : List Char) (first : List Lexeme) {chars : List Char}
    {before : List Lexeme} {lexeme : Lexeme}
    (hCut : CutAt (start + piece.length) chars before lexeme)
    (hPiece : ∀ rest, (NoPrimeFirst chars → NoPrimeFirst rest) →
      scanFrom start (piece ++ rest) = first ++ scanFrom (start + piece.length) rest) :
    CutAt start (piece ++ chars) (first ++ before) lexeme := by
  obtain ⟨front, c, back, rfl, hStart, hSymbol, hFront, hBehind⟩ := hCut
  refine ⟨piece ++ front, c, back, (List.append_assoc ..).symm, ?_, hSymbol, ?_, ?_⟩
  · rw [hStart, List.length_append, Nat.add_assoc]
  · rw [hPiece front fun hChars => hChars.replace.1, hFront]
  · intro rest
    rw [List.append_assoc, hPiece _ fun hChars => hChars.replace.2 rest, hBehind,
      List.append_assoc, List.length_append, Nat.add_assoc start]

/-- Every token that is no identifier is a place to cut at. By induction on
the scan: an identifier before the cut has taken all its quote marks, so none
stands first behind it, and that is still so when the text behind the cut is
replaced. -/
theorem cutAt_of_scanFrom_eq {start : Nat} {chars : List Char} {before after : List Lexeme}
    {lexeme : Lexeme} (hScan : scanFrom start chars = before ++ lexeme :: after)
    (hToken : ∀ name, lexeme.token ≠ .ident name) : CutAt start chars before lexeme := by
  fun_induction scanFrom start chars generalizing before with
  | case1 start => simp at hScan
  | case2 start c rest hBlank ih =>
      apply CutAt.prepend [c] [] (ih hScan)
      intro rest _
      rw [List.singleton_append, scanFrom, if_pos hBlank]
      rfl
  | case3 start c rest hBlank hAlpha primes =>
      rename_i ih
      cases before with
      | nil =>
          obtain ⟨rfl, -⟩ := List.cons.inj hScan
          exact False.elim (hToken _ rfl)
      | cons ident before =>
          obtain ⟨rfl, hTail⟩ := List.cons.inj hScan
          have hRest : rest = primes ++ rest.dropWhile isPrime :=
            List.takeWhile_append_dropWhile.symm
          have hPrimes : ∀ p ∈ primes, isPrime p = true := List.all_eq_true.mp List.all_takeWhile
          have hLength : start + (c :: primes).length = start + 1 + primes.length := by
            rw [List.length_cons]
            omega
          rw [hRest]
          apply CutAt.prepend (c :: primes) [_]
          · rw [hLength]
            exact ih hTail
          · intro other hOther
            rw [hLength]
            exact scanFrom_letter start hAlpha hPrimes (hOther (noPrimeFirst_dropWhile rest))
  | case4 start c rest hBlank hAlpha ih =>
      cases before with
      | nil =>
          obtain ⟨rfl, -⟩ := List.cons.inj hScan
          refine ⟨[], c, rest, rfl, rfl, rfl, ?_, ?_⟩
          · rw [scanFrom]
          · intro rest
            rw [List.nil_append, scanFrom, if_neg hBlank, if_neg hAlpha]
            rfl
      | cons mark before =>
          obtain ⟨rfl, hTail⟩ := List.cons.inj hScan
          apply CutAt.prepend [c] [_] (ih hTail)
          intro rest _
          rw [List.singleton_append, scanFrom, if_neg hBlank, if_neg hAlpha]
          rfl

theorem eq_of_symbol_eq_lparen {c : Char} (hSymbol : symbol c = .lparen) : c = '(' := by
  unfold symbol at hSymbol
  split at hSymbol
  · assumption
  · repeat' split at hSymbol
    all_goals cases hSymbol

/-- Only the closing parenthesis itself is read as one, so a token of that
kind tells which character it covers. -/
theorem eq_of_symbol_eq_rparen {c : Char} (hSymbol : symbol c = .rparen) : c = ')' := by
  unfold symbol at hSymbol
  split at hSymbol
  · cases hSymbol
  · split at hSymbol
    · assumption
    · repeat' split at hSymbol
      all_goals cases hSymbol

/-- A text without tokens is blank, since every other character is a token or
belongs to one. -/
theorem all_isBlank_of_tokens_eq_nil {chars : List Char} (hTokens : tokens chars = []) :
    chars.all Text.isBlank = true := by
  induction chars with
  | nil => rfl
  | cons c rest ih =>
      by_cases hBlank : Text.isBlank c = true
      · rw [tokens_blank rest hBlank] at hTokens
        simp [hBlank, ih hTokens]
      · rw [Bool.not_eq_true] at hBlank
        by_cases hAlpha : c.isAlpha = true
        · simp [tokens_letter rest hAlpha] at hTokens
        · simp [tokens_symbol rest hBlank (by simpa using hAlpha)] at hTokens

end LambdaDiagram.Lexeme
