/-! The operating systems and architectures that releases are published for, and the names
that depend on them. -/
namespace ReleaseInstaller

inductive Os where
  | darwin | freebsd | linux | windows
  deriving DecidableEq, Repr

inductive Arch where
  | x86 | amd64 | arm
  deriving DecidableEq, Repr

inductive PlatformError where
  | unsupportedOs (name : String)
  | unsupportedArch (name : String)
  deriving DecidableEq

namespace PlatformError

def message : PlatformError → String
  | unsupportedOs name => s!"Unsupported operating system `{name}`."
  | unsupportedArch name => s!"Unsupported architecture `{name}`."

end PlatformError

namespace Os

def ofHostName : String → Except PlatformError Os
  | "macos" => .ok darwin
  | "freebsd" => .ok freebsd
  | "linux" => .ok linux
  | "windows" => .ok windows
  | other => .error (.unsupportedOs other)

/-- The word for the system in the names of release artifacts. -/
def token : Os → String
  | darwin => "darwin"
  | freebsd => "freebsd"
  | linux => "linux"
  | windows => "windows"

def isWindows (os : Os) : Bool := os = windows

def pathSeparator (os : Os) : Char := if os.isWindows then ';' else ':'

/-- On Windows a name gets the extension unless it ends in that text already, with or without
a dot before it. -/
def fileName (os : Os) (name extension : String) : String :=
  if os.isWindows && !(extension.toList.isSuffixOf name.toList) then
    name ++ "." ++ extension
  else
    name

def executableName (os : Os) (name : String) : String := os.fileName name "exe"

end Os

namespace Arch

def ofHostName : String → Except PlatformError Arch
  | "x86" => .ok x86
  | "x86_64" => .ok amd64
  | "arm" => .ok arm
  | other => .error (.unsupportedArch other)

def token : Arch → String
  | x86 => "386"
  | amd64 => "amd64"
  | arm => "arm"

end Arch

structure Platform where
  os : Os
  arch : Arch
  deriving DecidableEq, Repr

namespace Platform

/-- Of two unsupported names the system's is reported. -/
def ofHost (os arch : String) : Except PlatformError Platform := do
  let os ← Os.ofHostName os
  let arch ← Arch.ofHostName arch
  return ⟨os, arch⟩

def artifactSuffix (p : Platform) : String := p.os.token ++ "-" ++ p.arch.token

end Platform

end ReleaseInstaller
