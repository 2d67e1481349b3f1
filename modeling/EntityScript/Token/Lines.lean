import EntityScript.Token.Scan

/-!
Which line ends end a statement.  A line end counts when it is outside parentheses,
the token before it can end a statement, and the token after it does not carry the
statement on; of several in a row the first counts.
-/

namespace EntityScript

/-- Keep the line ends that count, given the depth of parentheses, the last token that
was kept and a line end that counts if what follows does not carry on. -/
def joinLinesFrom (depth : Nat) (last : Option Token) (pending : Option Lexeme) :
    List Lexeme → List Lexeme
  | [] => []
  | lexeme :: rest =>
      if lexeme.token = .newline then
        let ends := depth = 0 && last.any fun token => !token.expectsMore
        let pending := pending.or (if ends then some lexeme else none)
        joinLinesFrom depth last pending rest
      else
        let breaks := if lexeme.token.carriesOn || lexeme.token = .eof then [] else pending.toList
        breaks ++ lexeme ::
          joinLinesFrom (lexeme.token.depthAfter depth) (some lexeme.token) none rest

/-- Keep the line ends that count. -/
def joinLines (lexemes : List Lexeme) : List Lexeme := joinLinesFrom 0 none none lexemes

/-- The lexemes of a text, with newlines only where they end a statement. -/
def lex (text : String) : Reading (List Lexeme) := joinLines <$> scan text

end EntityScript
