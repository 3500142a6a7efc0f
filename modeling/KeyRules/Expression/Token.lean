import KeyRules.Text.Blank

/-!
# KeyRules — tokens of an expression

An expression is a sequence of words and parentheses. A word is a longest run of characters that
are neither blank nor parentheses, whatever else they are: an operator symbol that touches a name
is part of that name's word. While an expression is compiled, a fourth kind of token stands for
a group that is done; no text has such a token.

* `Token` — the four kinds.
* `inParens` — a sequence of tokens in parentheses.
* `Reading` — what is known of a text that was read up to some place.
* `tokens` — the tokens of a text.
-/

namespace KeyRules.Expression

open KeyRules.Text (isBlank)

/-- A piece of an expression. -/
inductive Token where
  /-- A run of characters without blanks and parentheses. -/
  | word (text : String)
  /-- A group that is done, by its index in the store. -/
  | group (index : Nat)
  /-- An opening parenthesis. -/
  | opener
  /-- A closing parenthesis. -/
  | closer
  deriving DecidableEq, Repr

/-- The tokens of a text that is put in parentheses. -/
def inParens (ts : List Token) : List Token :=
  .opener :: (ts ++ [.closer])

/-- A text, read from its start up to some place in it. -/
structure Reading where
  /-- The tokens in front of this place. -/
  tokens : Array Token := #[]
  /-- The characters of the word that may go on here, the last one first. -/
  pending : List Char := []
  deriving Repr

namespace Reading

/-- The tokens read when the pending word ends here; there is no empty word. -/
def flush (r : Reading) : Array Token :=
  match r.pending with
  | [] => r.tokens
  | pending => r.tokens.push (.word (String.ofList pending.reverse))

/-- Reads the character at this place. -/
def push (r : Reading) (c : Char) : Reading :=
  if c = '(' then { tokens := r.flush.push .opener }
  else if c = ')' then { tokens := r.flush.push .closer }
  else if isBlank c then { tokens := r.flush }
  else { r with pending := c :: r.pending }

end Reading

/-- The tokens of a text, in order. -/
def tokens (text : String) : List Token :=
  (text.toList.foldl Reading.push {}).flush.toList

end KeyRules.Expression
