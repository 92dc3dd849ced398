import ReleaseInstaller.Text.Blank

/-! Comments in JSON texts. Before a text is read, every comment outside strings is blanked, and
so is a comma that only blanks and comments separate from a closing bracket. Line comments
start with two slashes or a number sign. -/
namespace ReleaseInstaller.Json

inductive CommentState where
  | top
  | string
  | escape
  | slash
  | line
  | block
  | star
  deriving DecidableEq

def isClosing (c : Char) : Bool := c = '}' || c = ']'

def closingNext? : CommentState → List Char → Option Bool
  | _, [] => some false
  | .top, c :: rest =>
    if c = '/' then closingNext? .slash rest
    else if c = '#' then closingNext? .line rest
    else if Text.isAsciiBlank c then closingNext? .top rest
    else some (isClosing c)
  | .slash, c :: rest =>
    if c = '/' then closingNext? .line rest
    else if c = '*' then closingNext? .block rest
    else none
  | .line, c :: rest => closingNext? (if c = '\n' then .top else .line) rest
  | .block, c :: rest => closingNext? (if c = '*' then .star else .block) rest
  | .star, c :: rest =>
    closingNext? (if c = '/' then .top else if c = '*' then .star else .block) rest
  | .string, _ | .escape, _ => some false

/-- `settled` says that the next character comes right after a comma that has been looked
behind, so that it stays even if it is a comma itself. -/
def blankFrom : CommentState → (settled : Bool) → List Char → Option (List Char)
  | _, _, [] => some []
  | .top, settled, c :: rest =>
    if c = '"' then (c :: ·) <$> blankFrom .string false rest
    else if c = '/' then (' ' :: ·) <$> blankFrom .slash settled rest
    else if c = '#' then (' ' :: ·) <$> blankFrom .line settled rest
    else if Text.isAsciiBlank c then (c :: ·) <$> blankFrom .top settled rest
    else if c = ',' && !settled then
      match closingNext? .top rest with
      | none => none
      | some true => (' ' :: ·) <$> blankFrom .top true rest
      | some false => (c :: ·) <$> blankFrom .top true rest
    else (c :: ·) <$> blankFrom .top false rest
  | .string, _, c :: rest =>
    (c :: ·) <$>
      blankFrom (if c = '"' then .top else if c = '\\' then .escape else .string) false rest
  | .escape, _, c :: rest => (c :: ·) <$> blankFrom .string false rest
  | .slash, settled, c :: rest =>
    if c = '/' then (' ' :: ·) <$> blankFrom .line settled rest
    else if c = '*' then (' ' :: ·) <$> blankFrom .block settled rest
    else none
  | .line, settled, c :: rest =>
    if c = '\n' then (c :: ·) <$> blankFrom .top settled rest
    else (' ' :: ·) <$> blankFrom .line settled rest
  | .block, settled, c :: rest =>
    (' ' :: ·) <$> blankFrom (if c = '*' then .star else .block) settled rest
  | .star, settled, c :: rest =>
    (' ' :: ·) <$>
      blankFrom (if c = '/' then .top else if c = '*' then .star else .block) settled rest

/-- The text without comments and without commas before closing brackets. A slash outside
strings that starts no comment spoils it, unless it is the very last character. -/
def withoutComments? (s : List Char) : Option (List Char) := blankFrom .top false s

end ReleaseInstaller.Json
