import LambdaDiagram.Proofs.Grammar.Reading
import LambdaDiagram.Proofs.Grammar.Scanning

/-! Printing a term and reading it back. The printed form spells every binder and every occurrence,
so it is read back as the same term as soon as the scan keeps all these names; and the reader builds
terms from scanned names only. -/
namespace LambdaDiagram

namespace Term

def printedTokens : Term → List Token
  | var name => [.ident name]
  | abs param body => .lparen :: (.lambda :: .ident param :: .dot :: body.printedTokens) ++ [.rparen]
  | app fn arg => .lparen :: (fn.printedTokens ++ arg.printedTokens) ++ [.rparen]

theorem operand_printedTokens (t : Term) : Operand t.printedTokens t := by
  induction t with
  | var name => exact .ident name
  | abs param body ih =>
      have hBody : Sequence body.printedTokens body := .spine (.single ih)
      have hParams : [param] ≠ [] := List.cons_ne_nil param []
      exact .paren (.abstraction (.intro hParams hBody))
  | app fn arg ihFn ihArg => exact .paren (.spine (.snoc (.single ihFn) ihArg))

/-- The printed form is scanned token by token, whatever follows it. Only a
quote mark right behind it would change the last token. -/
theorem tokens_render (t : Term) (rest : List Char) (hNames : ∀ x ∈ t.names, isSpellable x = true)
    (hRest : ∀ c ∈ rest.head?, Lexeme.isPrime c = false) :
    Lexeme.tokens (t.render.toList ++ rest) = t.printedTokens ++ Lexeme.tokens rest := by
  induction t generalizing rest with
  | var name => exact Lexeme.tokens_name rest (hNames name (by simp [names])) hRest
  | abs param body ih =>
      obtain ⟨hParam, hBody⟩ :
          isSpellable param = true ∧ ∀ x ∈ body.names, isSpellable x = true := by
        simpa [names, or_imp, forall_and] using hNames
      have hText : (abs param body).render.toList ++ rest =
          '(' :: 'λ' :: (param.toList ++ '.' :: (body.render.toList ++ ')' :: rest)) := by
        simp [render]
      rw [hText, Lexeme.tokens_mark _ (by simp), Lexeme.tokens_mark _ (by simp),
        Lexeme.tokens_name _ hParam (by simp [Lexeme.isPrime]), Lexeme.tokens_mark _ (by simp),
        ih _ hBody (by simp [Lexeme.isPrime]), Lexeme.tokens_mark _ (by simp)]
      simp [printedTokens, Lexeme.symbol]
  | app fn arg ihFn ihArg =>
      obtain ⟨hFn, hArg⟩ : (∀ x ∈ fn.names, isSpellable x = true) ∧
          ∀ x ∈ arg.names, isSpellable x = true := by
        simpa [names, or_imp, forall_and] using hNames
      have hText : (app fn arg).render.toList ++ rest =
          '(' :: (fn.render.toList ++ ' ' :: (arg.render.toList ++ ')' :: rest)) := by
        simp [render]
      have hSpace : Text.isBlank ' ' = true := rfl
      rw [hText, Lexeme.tokens_mark _ (by simp), ihFn _ hFn (by simp [Lexeme.isPrime]),
        Lexeme.tokens_blank _ hSpace, ihArg _ hArg (by simp [Lexeme.isPrime]),
        Lexeme.tokens_mark _ (by simp)]
      simp [printedTokens, Lexeme.symbol]

/-- A term with spellable names is read back from its printed form, which is
an operand with nothing behind it. -/
theorem parse_render_of_spellable {t : Term} (hNames : ∀ x ∈ t.names, isSpellable x = true) :
    parse t.render = .ok t := by
  have hTokens := t.tokens_render [] hNames (by simp)
  rw [List.append_nil, Lexeme.tokens_nil, List.append_nil] at hTokens
  rw [parse_eq_ok_iff, Lexeme.map_token_scan, hTokens]
  exact .spine (.single t.operand_printedTokens)

/-- The names of an abstraction over several parameters are these and the
names of the body. -/
theorem mem_names_foldr_abs {x : Name} {params : List Name} {body : Term} :
    x ∈ (params.foldr abs body).names ↔ x ∈ params ∨ x ∈ body.names := by
  induction params with
  | nil => simp
  | cons param params ih => simp [names, ih, or_assoc]

end Term

mutual

theorem Operand.ident_mem {tokens : List Token} {t : Term} (hOperand : Operand tokens t) {x : Name}
    (hMem : x ∈ t.names) : .ident x ∈ tokens := by
  match hOperand with
  | .ident name =>
      obtain rfl : x = name := by simpa [Term.names] using hMem
      exact List.mem_singleton.mpr rfl
  | .paren inner => simp [Sequence.ident_mem inner hMem]

theorem Abstraction.ident_mem {tokens : List Token} {t : Term}
    (hAbstraction : Abstraction tokens t) {x : Name} (hMem : x ∈ t.names) : .ident x ∈ tokens := by
  match hAbstraction with
  | .intro nonempty inner =>
      rcases Term.mem_names_foldr_abs.mp hMem with hParam | hBody
      · simp [hParam]
      · simp [Sequence.ident_mem inner hBody]

theorem Spine.ident_mem {tokens : List Token} {t : Term} (hSpine : Spine tokens t) {x : Name}
    (hMem : x ∈ t.names) : .ident x ∈ tokens := by
  match hSpine with
  | .single operand => exact Operand.ident_mem operand hMem
  | .snoc before operand =>
      rcases mem_mergeNames.mp hMem with hFn | hArg
      · exact List.mem_append_left _ (Spine.ident_mem before hFn)
      · exact List.mem_append_right _ (Operand.ident_mem operand hArg)

/-- Every name of a derived term is one of the identifiers it was derived
from. The four parts of the grammar are gone through together. -/
theorem Sequence.ident_mem {tokens : List Token} {t : Term} (hSequence : Sequence tokens t)
    {x : Name} (hMem : x ∈ t.names) : .ident x ∈ tokens := by
  match hSequence with
  | .spine operands => exact Spine.ident_mem operands hMem
  | .abstraction last => exact Abstraction.ident_mem last hMem
  | .applied before last =>
      rcases mem_mergeNames.mp hMem with hFn | hArg
      · exact List.mem_append_left _ (Spine.ident_mem before hFn)
      · exact List.mem_append_right _ (Abstraction.ident_mem last hArg)

end

namespace Term

/-- A term that was read has spellable names, because the scan makes no other
identifiers. -/
theorem isSpellable_of_parse {text : String} {t : Term} (hParse : parse text = .ok t) :
    ∀ x ∈ t.names, isSpellable x = true := by
  intro x hx
  rw [parse_eq_ok_iff, Lexeme.map_token_scan] at hParse
  exact Lexeme.isSpellable_of_mem_tokens (hParse.ident_mem hx)

/-- The printed form is read back as the same term exactly if every name in
the term, binders included, is a letter followed by quote marks. Terms that
were read are of this kind. -/
theorem parse_render_iff_spellable :
    (∀ t, parse t.render = .ok t ↔ ∀ x ∈ t.names, isSpellable x = true) ∧
      ∀ text t, parse text = .ok t → parse t.render = .ok t := by
  constructor
  · intro t
    exact ⟨isSpellable_of_parse, parse_render_of_spellable⟩
  · intro text t hParse
    exact parse_render_of_spellable (isSpellable_of_parse hParse)

/-- Quote marks belong to the names before them, and the spaces of the text
are not kept. -/
theorem parse_render_primed_names :
    let t := abs "y'" (app (var "y''") (var "y"))
    parse "\\y'. y''y" = .ok t ∧ t.render = "(λy'.(y'' y))" ∧ parse t.render = .ok t := by
  intro t
  have hScan : Lexeme.scan "\\y'. y''y" =
      [⟨.lambda, 0⟩, ⟨.ident "y'", 1⟩, ⟨.dot, 3⟩, ⟨.ident "y''", 5⟩, ⟨.ident "y", 8⟩] := by
    decide +kernel
  have hParse : parse "\\y'. y''y" = .ok t := by
    rw [parse_eq_ok_iff_reads, hScan]
    exact ⟨_, rfl, rfl⟩
  exact ⟨hParse, rfl, parse_render_iff_spellable.2 _ t hParse⟩

/-- A name with a space in it prints like an application, and is read back as
one. -/
example : parse (var "f x").render = .ok (app (var "f") (var "x")) := by
  have hScan : Lexeme.scan (var "f x").render = [⟨.ident "f", 0⟩, ⟨.ident "x", 2⟩] := by
    decide +kernel
  rw [parse_eq_ok_iff_reads, hScan]
  exact ⟨_, rfl, rfl⟩

end Term

end LambdaDiagram
