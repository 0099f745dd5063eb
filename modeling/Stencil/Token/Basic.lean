namespace Stencil

/-- A place in a source: lines count from one, columns from zero. -/
structure Pos where
  line : Nat
  col : Nat
  deriving DecidableEq, Repr, Inhabited

def Pos.start : Pos := ⟨1, 0⟩

/-- The place after one more character. Only a line feed begins a new line. -/
def Pos.step (p : Pos) (c : Char) : Pos :=
  if c = '\n' then ⟨p.line + 1, 0⟩ else ⟨p.line, p.col + 1⟩

def Pos.advance (p : Pos) (cs : List Char) : Pos := cs.foldl Pos.step p

@[simp] theorem Pos.advance_nil (p : Pos) : p.advance [] = p := rfl

@[simp] theorem Pos.advance_cons (p : Pos) (c : Char) (cs : List Char) :
    p.advance (c :: cs) = (p.step c).advance cs := rfl

@[simp] theorem Pos.advance_append (p : Pos) (as bs : List Char) :
    p.advance (as ++ bs) = (p.advance as).advance bs := by
  simp [Pos.advance]

/-- The kinds of tag: output that is escaped, output that is not, and statements. -/
inductive Delimiter
  | escaped
  | raw
  | statement
  deriving DecidableEq, Repr

namespace Delimiter

def opener : Delimiter → List Char
  | escaped => ['{', '{']
  | raw => ['{', '!']
  | statement => ['{', '%']

def closer : Delimiter → List Char
  | escaped => ['}', '}']
  | raw => ['!', '}']
  | statement => ['%', '}']

end Delimiter

inductive Symbol
  | lparen | rparen | lbracket | rbracket | lbrace | rbrace
  | dot | range | comma | colon | question | pipe | tilde | assign
  | add | sub | mul | div | mod
  | eq | ne | lt | gt | le | ge
  deriving DecidableEq, Repr

namespace Symbol

def text : Symbol → List Char
  | lparen => ['('] | rparen => [')'] | lbracket => ['['] | rbracket => [']']
  | lbrace => ['{'] | rbrace => ['}'] | dot => ['.'] | range => ['.', '.']
  | comma => [','] | colon => [':'] | question => ['?'] | pipe => ['|']
  | tilde => ['~'] | assign => ['='] | add => ['+'] | sub => ['-'] | mul => ['*']
  | div => ['/'] | mod => ['%'] | eq => ['=', '='] | ne => ['!', '=']
  | lt => ['<'] | gt => ['>'] | le => ['<', '='] | ge => ['>', '=']

def ofPair? : Char → Char → Option Symbol
  | '=', '=' => some eq
  | '!', '=' => some ne
  | '<', '=' => some le
  | '>', '=' => some ge
  | '.', '.' => some range
  | _, _ => none

def ofChar? : Char → Option Symbol
  | '(' => some lparen | ')' => some rparen | '[' => some lbracket | ']' => some rbracket
  | '{' => some lbrace | '}' => some rbrace | '.' => some dot | ',' => some comma
  | ':' => some colon | '?' => some question | '|' => some pipe | '~' => some tilde
  | '=' => some assign | '+' => some add | '-' => some sub | '*' => some mul
  | '/' => some div | '%' => some mod | '<' => some lt | '>' => some gt
  | _ => none

end Symbol

/-- What a token is. Its text is kept beside it. -/
inductive TokenKind
  | data
  | opening (d : Delimiter)
  | closing (d : Delimiter)
  | name
  | string
  | integer
  | decimal
  | symbol (s : Symbol)
  deriving DecidableEq, Repr

/-- A token: for a string its value without quotes and escapes, otherwise its source text. -/
structure Token where
  kind : TokenKind
  text : String
  pos : Pos
  deriving DecidableEq, Repr

structure TokenStream where
  tokens : List Token
  stop : Pos
  deriving DecidableEq, Repr

end Stencil
