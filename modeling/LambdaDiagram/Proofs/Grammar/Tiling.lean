import LambdaDiagram.Proofs.Grammar.Scanning
import LambdaDiagram.Proofs.Session.CommandWord
import Mathlib.Tactic.SplitIfs

/-! The scan is lossless. Its lexemes lie side by side over the text and leave out blanks only, each
one covers a spelling of its token, and tokens that are written apart are read back as they are. -/
namespace LambdaDiagram

namespace Lexeme

/-- A way to write a token in front of the rest of a text. An identifier takes
all quote marks, so none is left at the front of the rest. -/
inductive Spells : Token → List Char → List Char → Prop
  | letter {c : Char} {primes rest : List Char} (hAlpha : c.isAlpha = true)
      (hPrimes : ∀ p ∈ primes, isPrime p = true) (hRest : NoPrimeFirst rest) :
      Spells (.ident (String.ofList (c :: primes))) (c :: primes) rest
  | mark {c : Char} {rest : List Char} (hBlank : Text.isBlank c = false)
      (hAlpha : c.isAlpha = false) : Spells (symbol c) [c] rest

/-- Only a backslash is not written as it was read. -/
theorem toList_text_symbol {c : Char} (hChar : c ≠ '\\') : (symbol c).text.toList = [c] := by
  unfold symbol
  split_ifs with hOpen hClose hDot hLambda
  · rw [hOpen]
    rfl
  · rw [hClose]
    rfl
  · rw [hDot]
    rfl
  · rw [hLambda.resolve_left hChar]
    rfl
  · rw [Token.text, Char.toString_eq_singleton, String.toList_singleton]

namespace Spells

variable {token : Token} {piece rest : List Char} (hSpells : Spells token piece rest)

include hSpells

theorem isBlank_eq_false {c : Char} (hMem : c ∈ piece) : Text.isBlank c = false := by
  cases hSpells with
  | letter hAlpha hPrimes =>
      rcases List.mem_cons.mp hMem with rfl | hPrime
      · exact isBlank_of_isAlpha hAlpha
      · exact isBlank_of_isPrime (hPrimes c hPrime)
  | mark hBlank =>
      obtain rfl := List.mem_singleton.mp hMem
      exact hBlank

theorem length_pos : 0 < piece.length := by
  cases hSpells <;> simp

/-- The characters that are covered are those of the written form, but for the
backslash. -/
theorem eq_text_or_backslash :
    piece = token.text.toList ∨ token = .lambda ∧ piece = ['\\'] := by
  cases hSpells with
  | letter => exact .inl (String.toList_ofList).symm
  | @mark c =>
      by_cases hChar : c = '\\'
      · exact .inr ⟨by rw [hChar]; rfl, by rw [hChar]⟩
      · exact .inl (toList_text_symbol hChar).symm

theorem length_eq : piece.length = token.text.length := by
  rcases hSpells.eq_text_or_backslash with hText | ⟨rfl, rfl⟩
  · rw [hText, String.length_toList]
  · rfl

/-- Identifiers are spellable names that have taken all their quote marks. -/
theorem of_ident {name : Name} (hToken : token = .ident name) :
    isSpellable name = true ∧ NoPrimeFirst rest := by
  cases hSpells with
  | letter hAlpha hPrimes hRest =>
      obtain rfl := Token.ident.inj hToken
      refine ⟨?_, hRest⟩
      rw [isSpellable, String.toList_ofList]
      simpa [hAlpha] using hPrimes
  | mark => exact absurd hToken (symbol_ne_ident _ name)

theorem length_eq_one (hToken : ∀ name, token ≠ .ident name) : piece.length = 1 := by
  cases hSpells with
  | letter => exact absurd rfl (hToken _)
  | mark => rfl

/-- Letters and the marks of the notation never stand for themselves. -/
theorem of_other {c : Char} (hToken : token = .other c) :
    c.isAlpha = false ∧ c ∉ ['(', ')', '.', 'λ', '\\'] := by
  cases hSpells with
  | letter => cases hToken
  | mark hBlank hAlpha =>
      unfold symbol at hToken
      split_ifs at hToken with hOpen hClose hDot hLambda
      obtain rfl := Token.other.inj hToken
      rw [not_or] at hLambda
      simp [hAlpha, hOpen, hClose, hDot, hLambda]

/-- The written form is read as the token again, in front of any text that
cannot continue it. -/
theorem tokens_text_append {other : List Char} (hOther : NoPrimeFirst other) :
    tokens (token.text.toList ++ other) = token :: tokens other := by
  cases hSpells with
  | letter hAlpha hPrimes hRest =>
      exact tokens_name other (of_ident (.letter hAlpha hPrimes hRest) rfl).1 hOther
  | @mark c rest hBlank hAlpha =>
      by_cases hChar : c = '\\'
      · rw [hChar]
        exact tokens_mark other (by decide : 'λ' ∈ _)
      · rw [toList_text_symbol hChar]
        exact tokens_symbol other hBlank hAlpha

end Spells

/-- The lexemes lie side by side over the characters, whose first one has
index `start`, and leave out blanks only. -/
inductive Tiles : Nat → List Char → List Lexeme → Prop
  | done (start : Nat) : Tiles start [] []
  | blank {start : Nat} {c : Char} {rest : List Char} {lexemes : List Lexeme}
      (hBlank : Text.isBlank c = true) (hTiles : Tiles (start + 1) rest lexemes) :
      Tiles start (c :: rest) lexemes
  | lexeme {start : Nat} {token : Token} {piece rest : List Char} {lexemes : List Lexeme}
      (hSpells : Spells token piece rest) (hTiles : Tiles (start + piece.length) rest lexemes) :
      Tiles start (piece ++ rest) (⟨token, start⟩ :: lexemes)

/-- The scan tiles every text, starting anywhere. By induction along the scan
itself, one case for each kind of first character. -/
theorem tiles_scanFrom (start : Nat) (chars : List Char) :
    Tiles start chars (scanFrom start chars) := by
  fun_induction scanFrom start chars with
  | case1 start => exact .done start
  | case2 start c rest hBlank ih => exact .blank hBlank ih
  | case3 start c rest hBlank hAlpha primes ih =>
      have hPrimes : ∀ p ∈ primes, isPrime p = true := List.all_eq_true.mp List.all_takeWhile
      have hChars : c :: rest = c :: primes ++ rest.dropWhile isPrime := by
        rw [List.cons_append, List.takeWhile_append_dropWhile]
      rw [hChars]
      apply Tiles.lexeme (.letter hAlpha hPrimes (noPrimeFirst_dropWhile rest))
      rw [List.length_cons, show start + (primes.length + 1) = start + 1 + primes.length by omega]
      exact ih
  | case4 start c rest hBlank hAlpha ih =>
      rw [Bool.not_eq_true] at hBlank hAlpha
      show Tiles start ([c] ++ rest) _
      exact .lexeme (.mark hBlank hAlpha) ih

namespace Tiles

variable {start : Nat} {chars : List Char} {lexemes : List Lexeme}

/-- Every lexeme covers a spelling of its token, and begins where the text
before that spelling ends. -/
theorem exists_piece (hTiles : Tiles start chars lexemes) {lexeme : Lexeme}
    (hMem : lexeme ∈ lexemes) :
    ∃ front piece rest, chars = front ++ (piece ++ rest) ∧
      lexeme.start = start + front.length ∧ Spells lexeme.token piece rest := by
  induction hTiles with
  | done => cases hMem
  | @blank start c rest lexemes hBlank hTiles ih =>
      obtain ⟨front, piece, rest, rfl, hStart, hSpells⟩ := ih hMem
      refine ⟨c :: front, piece, rest, rfl, ?_, hSpells⟩
      rw [hStart, List.length_cons]
      omega
  | @lexeme start token first rest lexemes hSpells hTiles ih =>
      rcases List.mem_cons.mp hMem with rfl | hRest
      · exact ⟨[], first, rest, rfl, rfl, hSpells⟩
      · obtain ⟨front, piece, rest, rfl, hStart, hSpells⟩ := ih hRest
        refine ⟨first ++ front, piece, rest, (List.append_assoc ..).symm, ?_, hSpells⟩
        rw [hStart, List.length_append]
        omega

theorem start_le (hTiles : Tiles start chars lexemes) {lexeme : Lexeme}
    (hMem : lexeme ∈ lexemes) : start ≤ lexeme.start := by
  obtain ⟨front, -, -, -, hStart, -⟩ := hTiles.exists_piece hMem
  omega

/-- Later lexemes lie behind earlier ones without overlapping. -/
theorem pairwise (hTiles : Tiles start chars lexemes) :
    lexemes.Pairwise fun l next => l.start < next.start ∧ l.stop ≤ next.start := by
  induction hTiles with
  | done => exact .nil
  | blank hBlank hTiles ih => exact ih
  | lexeme hSpells hTiles ih =>
      refine List.pairwise_cons.mpr ⟨?_, ih⟩
      intro next hNext
      have hStart := hTiles.start_le hNext
      have hLength := hSpells.length_eq
      have hPos := hSpells.length_pos
      simp only [stop]
      omega

/-- A character is covered unless it is blank. One that belongs to the first
lexeme is not blank, since no spelling has a blank in it; the others are left
to the rest of the tiling. -/
theorem covered_iff (hTiles : Tiles start chars lexemes) {i : Nat} {c : Char}
    (hChar : chars[i]? = some c) :
    (∃ l ∈ lexemes, l.start ≤ start + i ∧ start + i < l.stop) ↔ Text.isBlank c = false := by
  induction hTiles generalizing i with
  | done => simp at hChar
  | @blank start first rest lexemes hBlank hTiles ih =>
      cases i with
      | zero =>
          obtain rfl : first = c := Option.some.inj hChar
          simp only [hBlank, Bool.true_eq_false, iff_false]
          rintro ⟨l, hMem, hStart, -⟩
          have hLater := hTiles.start_le hMem
          omega
      | succ i =>
          rw [← ih hChar, show start + (i + 1) = start + 1 + i by omega]
  | @lexeme start token piece rest lexemes hSpells hTiles ih =>
      have hStop : (Lexeme.mk token start).stop = start + piece.length := by
        rw [stop, hSpells.length_eq]
      by_cases hPiece : i < piece.length
      · rw [List.getElem?_append_left hPiece] at hChar
        have hBlank := hSpells.isBlank_eq_false (List.mem_of_getElem? hChar)
        refine ⟨fun _ => hBlank, fun _ => ⟨_, List.mem_cons_self, ?_, ?_⟩⟩
        · exact Nat.le_add_right start i
        · omega
      · rw [List.getElem?_append_right (by omega)] at hChar
        rw [← ih hChar, show start + piece.length + (i - piece.length) = start + i by omega]
        constructor
        · rintro ⟨l, hMem, hBounds⟩
          rcases List.mem_cons.mp hMem with rfl | hRest
          · omega
          · exact ⟨l, hRest, hBounds⟩
        · rintro ⟨l, hMem, hBounds⟩
          exact ⟨l, List.mem_cons_of_mem _ hMem, hBounds⟩

end Tiles

/-- A lexeme covers a spelling of its token, in front of what is left of the
text. -/
theorem spells_of_mem_scan {text : String} {lexeme : Lexeme} (hMem : lexeme ∈ scan text) :
    lexeme.stop ≤ text.length ∧
      Spells lexeme.token (text.toList.extract lexeme.start lexeme.stop)
        (text.toList.drop lexeme.stop) := by
  obtain ⟨front, piece, rest, hText, hStart, hSpells⟩ :=
    (tiles_scanFrom 0 text.toList).exists_piece hMem
  rw [Nat.zero_add] at hStart
  have hStop : lexeme.stop = front.length + piece.length := by
    rw [stop, hStart, hSpells.length_eq]
  have hLength : text.length = front.length + (piece.length + rest.length) := by
    rw [← String.length_toList, hText, List.length_append, List.length_append]
  have hPiece : text.toList.extract lexeme.start lexeme.stop = piece := by
    rw [List.extract_eq_take_drop, hStart, hStop, hText, List.drop_left, Nat.add_sub_cancel_left,
      List.take_left]
  have hRest : text.toList.drop lexeme.stop = rest := by
    rw [hStop, hText, ← List.append_assoc, ← List.length_append, List.drop_left]
  rw [hPiece, hRest]
  exact ⟨by omega, hSpells⟩

theorem start_lt_stop_of_mem_scan {text : String} {lexeme : Lexeme} (hMem : lexeme ∈ scan text) :
    lexeme.start < lexeme.stop ∧ lexeme.stop ≤ text.length := by
  obtain ⟨hEnd, hSpells⟩ := spells_of_mem_scan hMem
  have hPos := hSpells.length_pos
  rw [hSpells.length_eq] at hPos
  refine ⟨?_, hEnd⟩
  rw [stop]
  omega

/-- Tokens that are written apart are read back as they are: the space between
two of them cannot continue the first one, and is no token itself. -/
theorem tokens_intercalate_text {lexemes : List Lexeme}
    (hSpells : ∀ lexeme ∈ lexemes, ∃ piece rest, Spells lexeme.token piece rest) :
    tokens (" ".intercalate (lexemes.map fun lexeme => lexeme.token.text)).toList =
      lexemes.map token := by
  induction lexemes with
  | nil => simp
  | cons lexeme lexemes ih =>
      obtain ⟨⟨piece, rest, hFirst⟩, hRest⟩ := List.forall_mem_cons.mp hSpells
      cases lexemes with
      | nil =>
          have hNothing : NoPrimeFirst [] := by simp [NoPrimeFirst]
          simpa using hFirst.tokens_text_append hNothing
      | cons next lexemes =>
          have hSpace (chars : List Char) : NoPrimeFirst (' ' :: chars) := by
            simp [NoPrimeFirst, isPrime]
          rw [List.map_cons, List.map_cons, String.intercalate_cons_cons, String.toList_append,
            String.toList_append, List.append_assoc]
          show tokens (lexeme.token.text.toList ++ ' ' :: (" ".intercalate _).toList) = _
          rw [hFirst.tokens_text_append (hSpace _), tokens_blank _ rfl]
          exact congrArg (lexeme.token :: ·) (ih hRest)

end Lexeme

/-- The tokens of any text can be listed. -/
theorem Session.handle_tokenize (session : Session) (text : String) :
    (session.handle (":tokenize " ++ text)).2.output =
        " ".intercalate ((Lexeme.scan text).map fun lexeme => lexeme.token.text) ++ "\n" ∧
      (session.handle (":tokenize " ++ text)).2.diagnostic = none := by
  have hLine : ":tokenize " ++ text = ":" ++ "tokenize" ++ " " ++ text := rfl
  rw [hLine, handle, Command.ofLine_word (by decide) (by decide)]
  refine ⟨?_, rfl⟩
  show String.join [" ".intercalate (((Lexeme.scan text).map _).map _) ++ "\n"] = _
  rw [List.map_map, String.join_cons, String.join_nil, String.append_empty]
  rfl

namespace Lexeme

/-- Every text splits into tokens and nothing of it is lost. A lexeme covers
at least one character and ends within the text; its characters are the
written form of its token, but that a lambda may have been typed as a
backslash. An identifier is a letter with all quote marks behind it, any other
token is one character, and a character stands for itself only if the notation
has no use for it. Later lexemes lie behind earlier ones, and just the blanks
are left out. The listing of the tokens, with a space between any two of them,
is read as the same tokens again, and every session prints it on demand. -/
theorem scan_loses_nothing (text : String) :
    (∀ lexeme ∈ scan text,
      lexeme.start < lexeme.stop ∧ lexeme.stop ≤ text.length ∧
      (text.toList.extract lexeme.start lexeme.stop = lexeme.token.text.toList ∨
        lexeme.token = .lambda ∧ text.toList.extract lexeme.start lexeme.stop = ['\\']) ∧
      (∀ name, lexeme.token = .ident name →
        isSpellable name = true ∧ text.toList[lexeme.stop]? ≠ some '\'') ∧
      ((∀ name, lexeme.token ≠ .ident name) → lexeme.stop = lexeme.start + 1) ∧
      (∀ c, lexeme.token = .other c → c.isAlpha = false ∧ c ∉ ['(', ')', '.', 'λ', '\\'])) ∧
    ((scan text).Pairwise fun l next => l.start < next.start ∧ l.stop ≤ next.start) ∧
    (∀ i c, text.toList[i]? = some c →
      ((∃ l ∈ scan text, l.start ≤ i ∧ i < l.stop) ↔ Text.isBlank c = false)) ∧
    let listing := " ".intercalate ((scan text).map fun lexeme => lexeme.token.text)
    (scan listing).map token = (scan text).map token ∧
    ∀ session : Session,
      (session.handle (":tokenize " ++ text)).2.output = listing ++ "\n" ∧
      (session.handle (":tokenize " ++ text)).2.diagnostic = none := by
  have hTiles : Tiles 0 text.toList (scan text) := tiles_scanFrom 0 text.toList
  refine ⟨?_, hTiles.pairwise, ?_, ?_⟩
  · intro lexeme hMem
    obtain ⟨hEnd, hSpells⟩ := spells_of_mem_scan hMem
    have hStop : lexeme.stop =
        lexeme.start + (text.toList.extract lexeme.start lexeme.stop).length := by
      rw [hSpells.length_eq, stop]
    refine ⟨?_, hEnd, hSpells.eq_text_or_backslash, ?_, ?_, fun c => hSpells.of_other⟩
    · have hPos := hSpells.length_pos
      omega
    · intro name hToken
      obtain ⟨hName, hRest⟩ := hSpells.of_ident hToken
      refine ⟨hName, ?_⟩
      intro hQuote
      rw [← List.head?_drop] at hQuote
      exact absurd (hRest '\'' hQuote) (by decide)
    · intro hToken
      rw [hSpells.length_eq_one hToken] at hStop
      exact hStop
  · intro i c hChar
    simpa using hTiles.covered_iff hChar
  · intro listing
    refine ⟨?_, fun session => session.handle_tokenize text⟩
    rw [map_token_scan]
    apply tokens_intercalate_text
    intro lexeme hMem
    exact ⟨_, _, (spells_of_mem_scan hMem).2⟩

/-- A backslash, a name with two quote marks, a wide blank, and a quote mark
behind a blank, which belongs to no letter. -/
theorem scan_loses_nothing_of_stray_quote :
    let text := "\\x''.\u3000y 'é"
    let slash : Lexeme := ⟨.lambda, 0⟩
    let x : Lexeme := ⟨.ident "x''", 1⟩
    let quote : Lexeme := ⟨.other '\'', 8⟩
    (slash ∈ scan text ∧ x ∈ scan text ∧ quote ∈ scan text) ∧
      (text.toList.extract slash.start slash.stop = slash.token.text.toList ∨
        slash.token = .lambda ∧ text.toList.extract slash.start slash.stop = ['\\']) ∧
      (isSpellable "x''" = true ∧ text.toList[x.stop]? ≠ some '\'') ∧
      quote.stop = quote.start + 1 ∧
      ('\''.isAlpha = false ∧ '\'' ∉ ['(', ')', '.', 'λ', '\\']) ∧
      text.toList[5]? = some '\u3000' ∧
      ((∃ l ∈ scan text, l.start ≤ 5 ∧ 5 < l.stop) ↔ Text.isBlank '\u3000' = false) ∧
      let listing := " ".intercalate ((scan text).map fun lexeme => lexeme.token.text)
      (scan listing).map token = (scan text).map token := by
  intro text slash x quote
  have hSlash : slash ∈ scan text := by decide +kernel
  have hX : x ∈ scan text := by decide +kernel
  have hQuote : quote ∈ scan text := by decide +kernel
  have hBlank : text.toList[5]? = some '\u3000' := by decide
  obtain ⟨hLexemes, -, hCovered, hListing, -⟩ := scan_loses_nothing text
  obtain ⟨-, -, hBackslash, -⟩ := hLexemes slash hSlash
  obtain ⟨-, -, -, hName, -⟩ := hLexemes x hX
  obtain ⟨-, -, -, -, hSingle, hOther⟩ := hLexemes quote hQuote
  exact ⟨⟨hSlash, hX, hQuote⟩, hBackslash, hName "x''" rfl, hSingle (by simp [quote]),
    hOther '\'' rfl, hBlank, hCovered 5 '\u3000' hBlank, hListing⟩

end Lexeme

end LambdaDiagram
