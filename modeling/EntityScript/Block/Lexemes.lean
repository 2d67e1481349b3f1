import EntityScript.Block
import EntityScript.Diagnostic
import EntityScript.Remaining

/-!
Taking lexemes from the front of a list: single tokens, the end of a block, and the
payloads between the tokens that blocks are made of.
-/

namespace EntityScript

open Source (Span)

/-- The next token; behind the last lexeme there is only the end of the text. -/
def nextToken : List Lexeme → Token
  | [] => .eof
  | lexeme :: _ => lexeme.token

def nextSpan : List Lexeme → Span
  | [] => .none
  | lexeme :: _ => lexeme.span

/-- Stop because of the structure at the next token. -/
def misplaced {α : Type} (problem : StructureProblem) (lexemes : List Lexeme) : Reading α :=
  .error ⟨.structural problem, nextSpan lexemes⟩

def skipTerminators : List Lexeme → List Lexeme
  | [] => []
  | lexeme :: rest =>
      if lexeme.token = .newline ∨ lexeme.token = .semicolon then skipTerminators rest
      else lexeme :: rest

theorem length_skipTerminators_le (lexemes : List Lexeme) :
    (skipTerminators lexemes).length ≤ lexemes.length := by
  induction lexemes with
  | nil => simp [skipTerminators]
  | cons lexeme rest inductionHypothesis =>
      simp only [skipTerminators]
      split
      · exact Nat.le_succ_of_le inductionHypothesis
      · exact Nat.le_refl _

def afterTerminators (lexemes : List Lexeme) : Lax lexemes Unit :=
  ⟨(), skipTerminators lexemes, Nat.lt_succ_of_le (length_skipTerminators_le lexemes)⟩

def expect (wanted : Token) (lexemes : List Lexeme) : Reading (Strict lexemes Span) :=
  match lexemes with
  | lexeme :: rest =>
      if lexeme.token = wanted then .ok (.taking lexeme.span lexeme rest)
      else misplaced (.expectedToken wanted lexeme.token) (lexeme :: rest)
  | [] => misplaced (.expectedToken wanted .eof) []

def expectWord (word : String) (lexemes : List Lexeme) : Reading (Strict lexemes Span) :=
  match lexemes with
  | lexeme :: rest =>
      if lexeme.token = .name word then .ok (.taking lexeme.span lexeme rest)
      else misplaced (.expectedWord word lexeme.token) (lexeme :: rest)
  | [] => misplaced (.expectedWord word .eof) []

def expectName (lexemes : List Lexeme) : Reading (Strict lexemes (String × Span)) :=
  match lexemes with
  | lexeme :: rest =>
      match lexeme.token with
      | .name word => .ok (.taking (word, lexeme.span) lexeme rest)
      | found => misplaced (.expectedName found) (lexeme :: rest)
  | [] => misplaced (.expectedName .eof) []

def expectEnd (block : BlockKind) (opener : Span) (lexemes : List Lexeme) :
    Reading (Strict lexemes Span) :=
  match lexemes with
  | [] => misplaced (.missingEnd block opener.line) []
  | lexeme :: rest =>
      match lexeme.token with
      | .kwEnd => .ok (.taking lexeme.span lexeme rest)
      | .eof => misplaced (.missingEnd block opener.line) (lexeme :: rest)
      | found => misplaced (.expectedEnd block opener.line found) (lexeme :: rest)

def skipAnnotations (lexemes : List Lexeme) : Reading (Lax lexemes Unit) :=
  match lexemes with
  | [] => .ok (.staying () [])
  | lexeme :: rest =>
      match lexeme.token with
      | .unit _ => do
          let r ← skipAnnotations rest
          pure r.relax
      | .colon => do
          let name ← expectName rest
          let r ← skipAnnotations name.rest
          pure (name.behind r).relax.relax
      | _ => .ok (.staying () (lexeme :: rest))
termination_by lexemes.length
decreasing_by all_goals grind

/-- The lexemes up to the first one at which the payload ends, which may depend on the
depth of parentheses, and the rest from that one on. -/
def splitPayload (ends : Nat → Token → Bool) : Nat → List Lexeme → List Lexeme × List Lexeme
  | _, [] => ([], [])
  | depth, lexeme :: rest =>
      if ends depth lexeme.token then ([], lexeme :: rest)
      else
        let (payload, rest) := splitPayload ends (lexeme.token.depthAfter depth) rest
        (lexeme :: payload, rest)

/-- No lexeme is lost or moved. -/
theorem append_splitPayload (ends : Nat → Token → Bool) (depth : Nat) (lexemes : List Lexeme) :
    (splitPayload ends depth lexemes).1 ++ (splitPayload ends depth lexemes).2 = lexemes := by
  induction lexemes generalizing depth with
  | nil => rfl
  | cons lexeme rest inductionHypothesis =>
      simp only [splitPayload]
      split
      · rfl
      · simp [inductionHypothesis]

theorem length_splitPayload (ends : Nat → Token → Bool) (depth : Nat) (lexemes : List Lexeme) :
    (splitPayload ends depth lexemes).1.length + (splitPayload ends depth lexemes).2.length
      = lexemes.length := by
  rw [← List.length_append, append_splitPayload]

def Payload.of (first : Lexeme) (more : List Lexeme) : Payload :=
  ⟨first :: more, first.span.union (more.getLastD first).span⟩

/-- Stop because there is no payload. -/
def missingPayload {α : Type} (kind : PayloadKind) (position : Span) : Reading α :=
  .error ⟨.structural (.missingPayload kind), position⟩

/-- Take a payload up to where it ends, unless it ends at once. -/
def takePayload (ends : Nat → Token → Bool) (lexemes : List Lexeme) :
    Option (Strict lexemes Payload) :=
  match split : splitPayload ends 0 lexemes with
  | ([], _) => none
  | (first :: more, rest) =>
      some ⟨Payload.of first more, rest, by
        have total := length_splitPayload ends 0 lexemes
        rw [split] at total
        simp only [List.length_cons] at total
        omega⟩

/-- Take a payload up to a token outside parentheses, and that token. -/
def payloadUntil (stop : Token) (kind : PayloadKind) (lexemes : List Lexeme) :
    Reading (Strict lexemes Payload) :=
  let ends (depth : Nat) (token : Token) : Bool :=
    (depth = 0 && token = stop) || token.endsStatement
  match takePayload ends lexemes with
  | none =>
      if nextToken lexemes = stop then missingPayload kind (nextSpan lexemes)
      else misplaced (.expectedAfter stop kind) lexemes
  | some payload =>
      match payload.relax.next? with
      | none => misplaced (.expectedAfter stop kind) []
      | some next =>
          if next.value.token = stop then .ok (next.map fun _ => payload.value)
          else misplaced (.expectedAfter stop kind) payload.rest

end EntityScript
