import ReleaseInstaller.Machine
import ReleaseInstaller.Net.Url

/-! Requests. Redirections are followed up to a limit; what is not redirected is the answer,
whatever its status. -/
namespace ReleaseInstaller.Net

inductive TransportFault where
  | failed
  | timedOut
  deriving DecidableEq

/-- How many redirections in a row are followed. -/
def redirectLimit : Nat := 9

def ask (url : String) : Procedure TransportFault Response := do
  let m ← get
  match m.network m.requests url with
  | .unreachable => throw .failed
  | .dropped =>
    Procedure.record (.requested url)
    throw .failed
  | .silent =>
    Procedure.record (.requested url)
    throw .timedOut
  | .response r =>
    Procedure.record (.requested url)
    return r

/-- Where the client is sent on to. -/
def Response.redirection? (r : Response) : Option String :=
  if r.isRedirect then r.location? else none

def getFollowing : (redirects : Nat) → (url : String) → Procedure TransportFault Response
  | 0, url => do
    let r ← ask url
    if r.redirection?.isSome then throw .failed else return r
  | redirects + 1, url => do
    let r ← ask url
    match r.redirection? with
    | some location => getFollowing redirects (Url.resolve url location)
    | none => return r

def request (url : String) : Procedure TransportFault Response := getFollowing redirectLimit url

def Ending.fault? : Ending → Option TransportFault
  | complete => none
  | cut => some .failed
  | stalled => some .timedOut

def readText (body : Body) : Except TransportFault String :=
  match body.ending.fault? with
  | none => .ok (String.ofList (Text.Utf8.decodeLossy body.octets))
  | some fault => .error fault

end ReleaseInstaller.Net
