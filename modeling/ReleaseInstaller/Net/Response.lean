import ReleaseInstaller.Text.Utf8

/-! What a release server may answer. A body arrives in chunks, and after the chunks that do
arrive it is over, cut off, or never goes on. -/
namespace ReleaseInstaller.Net

inductive Ending where
  | complete
  | cut
  | stalled
  deriving DecidableEq

structure Body where
  chunks : List (List UInt8)
  ending : Ending
  deriving DecidableEq

structure Response where
  status : Nat
  location? : Option String
  /-- The length that the answer announces, if it does. -/
  length? : Option Nat
  body : Body
  deriving DecidableEq

inductive Reply where
  | response (r : Response)
  | dropped
  | silent
  /-- Nothing listens there, so that no request arrives anywhere. -/
  | unreachable
  deriving DecidableEq

/-- What is answered to a request, given the requests that came before it. -/
abbrev Network := (earlier : List String) → (url : String) → Reply

namespace Network

def offline : Network := fun _ _ => .unreachable

end Network

namespace Body

def empty : Body := ⟨[], .complete⟩

def octets (b : Body) : List UInt8 := b.chunks.flatten

end Body

namespace Response

def isSuccess (r : Response) : Bool := 200 ≤ r.status && r.status < 300

def isRedirect (r : Response) : Bool := r.status ∈ [301, 302, 303, 307, 308]

end Response

def reasons : List (Nat × String) := [
  (100, "Continue"), (101, "Switching Protocols"), (102, "Processing"), (103, "Early Hints"),
  (200, "OK"), (201, "Created"), (202, "Accepted"), (203, "Non Authoritative Information"),
  (204, "No Content"), (205, "Reset Content"), (206, "Partial Content"), (207, "Multi-Status"),
  (208, "Already Reported"), (226, "IM Used"), (300, "Multiple Choices"),
  (301, "Moved Permanently"), (302, "Found"), (303, "See Other"), (304, "Not Modified"),
  (305, "Use Proxy"), (307, "Temporary Redirect"), (308, "Permanent Redirect"),
  (400, "Bad Request"), (401, "Unauthorized"), (402, "Payment Required"), (403, "Forbidden"),
  (404, "Not Found"), (405, "Method Not Allowed"), (406, "Not Acceptable"),
  (407, "Proxy Authentication Required"), (408, "Request Timeout"), (409, "Conflict"),
  (410, "Gone"), (411, "Length Required"), (412, "Precondition Failed"),
  (413, "Payload Too Large"), (414, "URI Too Long"), (415, "Unsupported Media Type"),
  (416, "Range Not Satisfiable"), (417, "Expectation Failed"), (418, "I'm a teapot"),
  (421, "Misdirected Request"), (422, "Unprocessable Entity"), (423, "Locked"),
  (424, "Failed Dependency"), (425, "Too Early"), (426, "Upgrade Required"),
  (428, "Precondition Required"), (429, "Too Many Requests"),
  (431, "Request Header Fields Too Large"), (451, "Unavailable For Legal Reasons"),
  (500, "Internal Server Error"), (501, "Not Implemented"), (502, "Bad Gateway"),
  (503, "Service Unavailable"), (504, "Gateway Timeout"),
  (505, "HTTP Version Not Supported"), (506, "Variant Also Negotiates"),
  (507, "Insufficient Storage"), (508, "Loop Detected"), (510, "Not Extended"),
  (511, "Network Authentication Required")]

def statusText (status : Nat) : String :=
  toString status ++ " " ++ (reasons.lookup status).getD "<unknown status code>"

end ReleaseInstaller.Net
