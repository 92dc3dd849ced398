/-! The parts of a URL that a client has to tell apart: the origin, which names the scheme and
the server, and the path on it. -/
namespace ReleaseInstaller.Net.Url

/-- The text before the first occurrence of `mark` and the text after it. -/
def cutAfter? (mark : List Char) : List Char → Option (List Char × List Char)
  | [] => none
  | c :: rest =>
    if mark.isPrefixOf (c :: rest) then some ([], (c :: rest).drop mark.length)
    else (cutAfter? mark rest).map fun (before, after) => (c :: before, after)

def schemeMark : List Char := "://".toList

def split (url : List Char) : List Char × List Char :=
  match cutAfter? schemeMark url with
  | none => ([], url)
  | some (scheme, rest) =>
    let authority := rest.takeWhile fun c => c ≠ '/' && c ≠ '?' && c ≠ '#'
    let after := rest.dropWhile fun c => c ≠ '/' && c ≠ '?' && c ≠ '#'
    let path := (after.takeWhile (· ≠ '#'))
    (scheme ++ schemeMark ++ authority, if path.head? = some '/' then path else '/' :: path)

def path (url : String) : String := String.ofList (split url.toList).2

def resolve (url location : String) : String :=
  let (origin, path) := split url.toList
  let target := location.toList
  if (cutAfter? schemeMark target).isSome then location
  else if "//".toList.isPrefixOf target then
    String.ofList (origin.takeWhile (· ≠ ':') ++ ':' :: target)
  else if target.head? = some '/' then String.ofList (origin ++ target)
  else
    let directory := (path.takeWhile (· ≠ '?')).reverse.dropWhile (· ≠ '/')
    String.ofList (origin ++ directory.reverse ++ target)

end ReleaseInstaller.Net.Url
