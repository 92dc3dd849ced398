import ReleaseInstaller.Files.Operation
import ReleaseInstaller.Net.Client
import ReleaseInstaller.Version.Release

/-! Downloading a release artifact into a file, chunk by chunk. That the server has no such
artifact is an outcome and no error, so that the caller can look for another release. -/
namespace ReleaseInstaller

inductive DownloadOutcome where
  | completed
  | missing
  deriving DecidableEq

structure Download where
  url : String
  status : Nat
  written : Nat
  outcome : DownloadOutcome
  deriving DecidableEq

namespace Download

/-- Stores the chunks one after another and counts their octets on from `written`. -/
def receive (l : Location) (shows : Bool) (total : Nat) :
    (written : Nat) → List (List UInt8) → Procedure Fault Nat
  | written, [] => return written
  | written, chunk :: rest => do
    Files.store l chunk
    if shows then Procedure.record (.progressed (written + chunk.length) total)
    receive l shows total (written + chunk.length) rest

def transportError (url : String) : Net.TransportFault → InstallError
  | .failed => .downloadFailed url
  | .timedOut => .downloadTimeout url

def save (url : String) (file : Path) (shows : Bool) (response : Net.Response) :
    Procedure InstallError Download := do
  let l ← Procedure.failing FileFailure.toError (Files.create file)
  let written ← Procedure.failing (fun _ => .writeFailed file)
    (receive l shows (response.length?.getD 0) 0 response.body.chunks)
  match response.body.ending.fault? with
  | some fault => throw (transportError url fault)
  | none =>
    Procedure.failing (fun _ => .writeFailed file) (Files.flush l)
    return ⟨url, response.status, written, .completed⟩

def run (url : String) (version : ReleaseVersion) (file : Path) (shows : Bool) :
    Procedure InstallError Download := do
  Procedure.record (.downloading version.text url)
  let response ← Procedure.failing (transportError url) (Net.request url)
  if response.status = 404 then return ⟨url, 404, 0, .missing⟩
  else if response.isSuccess then save url file shows response
  else throw (.notAvailable version.text (Net.statusText response.status))

end Download
end ReleaseInstaller
