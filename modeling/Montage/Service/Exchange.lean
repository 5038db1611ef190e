import Montage.Json.Codec

/- What passes between a client and a render service: requests, and what may come back. -/
namespace Montage

structure FormPart where
  name : String
  fileName : Option String
  contentType : Option String
  body : Bytes

namespace FormPart

def text (name value : String) : FormPart := ⟨name, none, none, Utf8.encode value⟩

def file (name fileName : String) (body : Bytes) : FormPart :=
  ⟨name, some fileName, some "application/octet-stream", body⟩

/-- Characters of a name that would have to be encoded. -/
def needsEncoding (c : Char) : Bool :=
  decide (c.toNat ≤ 0x20) || decide (0x7f ≤ c.toNat) || "\"<>`#?\x7b\x7d/%".toList.contains c

/-- The name as a quoted parameter; names that need encoding travel in extended notation. -/
def quotedName? (p : FormPart) : Option String :=
  if p.name.toList.any needsEncoding then none else some p.name

end FormPart

inductive Request where
  | get (path : String)
  | post (path : String) (parts : List FormPart)

structure Reply where
  status : Nat
  body : Bytes
  /-- Bytes announced and never sent. -/
  missing : Nat

namespace Reply

def isSuccess (r : Reply) : Bool := decide (200 ≤ r.status) && decide (r.status < 300)

/-- Replies of these kinds come without a body, whatever was sent. -/
def isBodiless (r : Reply) : Bool := r.status == 204 || r.status == 304

/-- The whole body, or none when it was cut short. -/
def content (r : Reply) : Option Bytes :=
  if r.isBodiless then some [] else if r.missing = 0 then some r.body else none

end Reply

/-- What may come of a request. -/
inductive Answer where
  /-- There is no connection. -/
  | refused
  /-- The connection ends without a reply. -/
  | closed
  /-- Nothing ever comes. -/
  | hanging
  | reply (r : Reply)

/-- How a service answers the two requests it knows. -/
structure Service where
  health : Answer
  render : Answer

def Service.unreachable : Service := ⟨.refused, .refused⟩

/-- The usual phrase for a status. -/
def statusPhrases : List (Nat × String) :=
  [(100, "Continue"), (101, "Switching Protocols"), (102, "Processing"), (200, "OK"),
    (201, "Created"), (202, "Accepted"), (203, "Non Authoritative Information"),
    (204, "No Content"), (205, "Reset Content"), (206, "Partial Content"), (207, "Multi-Status"),
    (208, "Already Reported"), (226, "IM Used"), (300, "Multiple Choices"),
    (301, "Moved Permanently"), (302, "Found"), (303, "See Other"), (304, "Not Modified"),
    (305, "Use Proxy"), (307, "Temporary Redirect"), (308, "Permanent Redirect"),
    (400, "Bad Request"), (401, "Unauthorized"), (402, "Payment Required"), (403, "Forbidden"),
    (404, "Not Found"), (405, "Method Not Allowed"), (406, "Not Acceptable"),
    (407, "Proxy Authentication Required"), (408, "Request Timeout"), (409, "Conflict"),
    (410, "Gone"), (411, "Length Required"), (412, "Precondition Failed"),
    (413, "Payload Too Large"), (414, "URI Too Long"), (415, "Unsupported Media Type"),
    (416, "Range Not Satisfiable"), (417, "Expectation Failed"), (418, "I'm a teapot"),
    (421, "Misdirected Request"), (422, "Unprocessable Entity"), (423, "Locked"),
    (424, "Failed Dependency"), (425, "Too Early"), (426, "Upgrade Required"),
    (428, "Precondition Required"), (429, "Too Many Requests"),
    (431, "Request Header Fields Too Large"), (451, "Unavailable For Legal Reasons"),
    (500, "Internal Server Error"), (501, "Not Implemented"), (502, "Bad Gateway"),
    (503, "Service Unavailable"), (504, "Gateway Timeout"), (505, "HTTP Version Not Supported"),
    (506, "Variant Also Negotiates"), (507, "Insufficient Storage"), (508, "Loop Detected"),
    (510, "Not Extended"), (511, "Network Authentication Required")]

def statusText (status : Nat) : String :=
  let phrase := (statusPhrases.find? fun e => e.1 == status).map (·.2)
  toString status ++ " " ++ phrase.getD "<unknown status code>"

end Montage
