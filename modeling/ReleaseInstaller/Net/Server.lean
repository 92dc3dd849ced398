import ReleaseInstaller.Net.Response
import ReleaseInstaller.Net.Url

/-! A release server whose answers are planned ahead. Every path has a row of answers, which
are given in turn; the last one is given again and again. -/
namespace ReleaseInstaller.Net

structure Server where
  routes : List (String × List Reply)
  listening : Bool
  origin : String

namespace Server

def missing : Reply := .response ⟨404, none, some 0, .empty⟩

/-- The answer to the request that comes after `earlier` ones for the same path. -/
def answer (s : Server) (path : String) (earlier : Nat) : Reply :=
  match s.routes.lookup path with
  | none => missing
  | some replies => (replies[earlier]?.or replies.getLast?).getD missing

def network (s : Server) : Network := fun earlier url =>
  if s.listening && s.origin.toList = (Url.split url.toList).1 then
    s.answer (Url.path url) (earlier.countP fun past => Url.path past = Url.path url)
  else
    .unreachable

end Server
end ReleaseInstaller.Net
