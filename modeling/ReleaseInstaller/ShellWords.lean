/-! Words of a POSIX shell: writing a list of words as one line, and reading a line back. -/
namespace ReleaseInstaller.ShellWords

def isSpecial (c : Char) : Bool :=
  c ∈ ['|', '&', ';', '<', '>', '(', ')', '$', Char.ofNat 0x60, '\\', '"', '\'', ' ', '\t', '\n',
    '*', '?', '[', '#', '~', '=', '%']

/-- A single quote is written outside the quotes, behind a backslash. -/
def quoteInner : List Char → List Char
  | [] => []
  | c :: rest =>
    if c = '\'' then '\'' :: '\\' :: '\'' :: '\'' :: quoteInner rest else c :: quoteInner rest

def quote (word : List Char) : List Char :=
  if word.isEmpty then ['\'', '\'']
  else if word.any isSpecial then '\'' :: quoteInner word ++ ['\'']
  else word

def join (words : List (List Char)) : List Char := List.intercalate [' '] (words.map quote)

inductive Mode where
  | between
  | word
  | single
  | double
  /-- After a number sign that a word would have to start with. -/
  | comment
  | opening
  | wordEscape
  | doubleEscape
  deriving DecidableEq

def isGap (c : Char) : Bool := c = ' ' || c = '\t' || c = '\n'

/-- Reads on from a mode, `word` being the word so far in reverse. A backslash at the very end
stands for itself, and before a line end it takes that with it; nothing comes of quotes that stay
open. -/
def splitFrom : Mode → (word : List Char) → List Char → Option (List (List Char))
  | .between, _, [] | .comment, _, [] => some []
  | .word, word, [] => some [word.reverse]
  | .opening, word, [] | .wordEscape, word, [] => some [('\\' :: word).reverse]
  | .single, _, [] | .double, _, [] | .doubleEscape, _, [] => none
  | .between, _, c :: rest =>
    if isGap c then splitFrom .between [] rest
    else if c = '\\' then splitFrom .opening [] rest
    else if c = '\'' then splitFrom .single [] rest
    else if c = '"' then splitFrom .double [] rest
    else if c = '#' then splitFrom .comment [] rest
    else splitFrom .word [c] rest
  | .word, word, c :: rest =>
    if isGap c then (splitFrom .between [] rest).map fun words => word.reverse :: words
    else if c = '\\' then splitFrom .wordEscape word rest
    else if c = '\'' then splitFrom .single word rest
    else if c = '"' then splitFrom .double word rest
    else splitFrom .word (c :: word) rest
  | .single, word, c :: rest =>
    if c = '\'' then splitFrom .word word rest else splitFrom .single (c :: word) rest
  | .double, word, c :: rest =>
    if c = '"' then splitFrom .word word rest
    else if c = '\\' then splitFrom .doubleEscape word rest
    else splitFrom .double (c :: word) rest
  | .comment, _, c :: rest => splitFrom (if c = '\n' then .between else .comment) [] rest
  | .opening, word, c :: rest =>
    if c = '\n' then splitFrom .between [] rest else splitFrom .word (c :: word) rest
  | .wordEscape, word, c :: rest =>
    if c = '\n' then splitFrom .word word rest else splitFrom .word (c :: word) rest
  | .doubleEscape, word, c :: rest =>
    if c = '\n' then splitFrom .double word rest
    else if c = '$' || c = Char.ofNat 0x60 || c = '"' || c = '\\' then
      splitFrom .double (c :: word) rest
    else splitFrom .double (c :: '\\' :: word) rest

def split? (line : List Char) : Option (List (List Char)) := splitFrom .between [] line

end ReleaseInstaller.ShellWords
