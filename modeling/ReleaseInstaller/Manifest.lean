import ReleaseInstaller.Files.Operation
import ReleaseInstaller.Json.Comments
import ReleaseInstaller.Json.Printer
import ReleaseInstaller.Json.Reader
import ReleaseInstaller.Version.Release

/-! The package manifest, a JSON document that records the released version. Only its version
member is read or written; every other member stays as it is. -/
namespace ReleaseInstaller

structure Manifest where
  path : Path
  root : Json.Value

namespace Manifest

def versionKey : List Char := "version".toList

def parse (octets : List UInt8) : Except ManifestFault Json.Value :=
  match Text.Utf8.decode? octets with
  | none => .error (.file .read)
  | some text => match Json.withoutComments? text with
    | none => .error .uncleanComments
    | some bare => match Json.read? bare with
      | none => .error .malformed
      | some root => .ok root

def ofFiles (p : Path) (f : Files) : Except InstallError Manifest :=
  match Files.read p f with
  | .error _ => .error (.manifest (.file .read) p)
  | .ok octets => match parse octets with
    | .error fault => .error (.manifest fault p)
    | .ok root => .ok ⟨p, root⟩

/-- A manifest that is not there is no error here. -/
def ofFiles? (p : Path) (f : Files) : Except InstallError (Option Manifest) :=
  if f.holds p then (ofFiles p f).map some else .ok none

def load (p : Path) : Procedure InstallError Manifest := do
  ExceptT.mk (pure (ofFiles p (← get).files))

/-- The recorded version; a blank one and a missing one record nothing. -/
def version (m : Manifest) : Except InstallError (Option ReleaseVersion) :=
  match m.root.member? versionKey with
  | none => .ok none
  | some (.string text) =>
    if Text.isAllBlank text then .ok none
    else (ReleaseVersion.parse (String.ofList text)).map some
  | some _ => .error (.versionFieldMissing m.path)

/-- Only an object can record a version. -/
def setVersion (v : ReleaseVersion) (m : Manifest) : Except InstallError Manifest :=
  match m.root with
  | .object members =>
    .ok { m with root := .object (Json.setMember versionKey (.string v.text.toList) members) }
  | _ => .error (.versionFieldMissing m.path)

def octets (m : Manifest) : List UInt8 := Text.Utf8.encode m.root.text

def save (m : Manifest) : Procedure InstallError Unit :=
  Procedure.failing (fun failure => .manifest (.file failure.action) failure.path)
    (Files.write m.path m.octets)

end Manifest
end ReleaseInstaller
