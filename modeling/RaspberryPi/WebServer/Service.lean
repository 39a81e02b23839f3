import RaspberryPi.WebServer.Headers
import RaspberryPi.WebServer.SendData

/-! # The connections of `webserver.c`

`clnt_connection` as a whole, and the loop of `main`, which waits for the thread
of one connection before it accepts the next. -/

namespace RaspberryPi.WebServer

open CString

namespace Service

/-! ## What goes back to a client -/

def sendOk : Bytes := SendData.protocol ++ SendData.server ++ Headers.blankLine

def cntLen : Bytes := ascii
  ['C', 'o', 'n', 't', 'e', 'n', 't', '-', 'L', 'e', 'n', 'g', 't', 'h', ' ', ':', ' ', '1', '0',
    '2', '4', ' ', '\r', '\n']

def content1 : Bytes := ascii
  ['<', 'h', 't', 'm', 'l', '>', '<', 'h', 'e', 'a', 'd', '>', '<', 't', 'i', 't', 'l', 'e', '>',
    'B', 'A', 'D', ' ', 'C', 'o', 'n', 'n', 'e', 'c', 't', 'i', 'o', 'n', '<', '/', 't', 'i', 't',
    'l', 'e', '>', '<', '/', 'h', 'e', 'a', 'd', '>']

def content2 : Bytes := ascii
  ['<', 'b', 'o', 'd', 'y', '>', '<', 'f', 'o', 'n', 't', ' ', 's', 'i', 'z', 'e', ':', '+', '5',
    '>', 'B', 'A', 'D', ' ', 'R', 'e', 'q', 'u', 'e', 's', 't', '<', '/', 'f', 'o', 'n', 't', '>',
    '<', '/', 'b', 'o', 'd', 'y', '>', '<', '/', 'h', 't', 'm', 'l', '>']

def sendError : Bytes :=
  SendData.protocol ++ SendData.server ++ cntLen ++ (SendData.cntType ++ Headers.blankLine) ++
    content1 ++ content2

/-- What the arrays of the functions hold before anything is written to them. -/
structure Stack where
  regLine : Buffer
  filename : Buffer
  buf : Buffer

abbrev Files := Bytes → Option Bytes

/-- `clnt_connection` and the function it answers with: no result while a loop goes on,
and none inside of it where a string is read behind its array. -/
def clntConnection (fuel : Nat) (files : Files) (stack : Stack) (input : Bytes) :
    Option (Option Bytes) :=
  match Headers.clntConnection fuel stack.regLine input with
  | none => none
  | some .sendOk => some (some sendOk)
  | some .sendError => some (some sendError)
  | some (.sendData path) =>
      match (WebServer.clntConnection stack.filename path).bind fun moved =>
          readString moved.filename with
      | none => some none
      | some filename => SendData.sendData fuel stack.buf (files filename)

/-- The loop of `main` over the connections that come in: what goes back on each, up to
one whose thread does not end. -/
def serve (fuel : Nat) (files : Files) : List (Stack × Bytes) → List (Option Bytes)
  | [] => []
  | (stack, input) :: later =>
      match clntConnection fuel files stack input with
      | none => []
      | some answer => answer :: serve fuel files later

/-! ## Requests -/

/-- A request as a browser writes it: a line with a method, a name and a version, and
header fields up to a blank line. -/
structure Request where
  method : Bytes
  name : Bytes
  version : Bytes
  fields : Bytes
  methodNonempty : method ≠ []
  methodPlain : ∀ byte ∈ method, byte ∉ [0, Headers.newline, slash, Headers.space]
  namePlain : ∀ byte ∈ name, byte ∉ [0, Headers.newline, Headers.space]
  relative : name.head? ≠ some slash
  versionPlain : ∀ byte ∈ version, byte ∉ [0, Headers.newline]
  fits : method.length + name.length + version.length + 5 < bufsiz
  complete : Headers.HasBlankLine fields

namespace Request

def target (request : Request) : Bytes :=
  slash :: request.name ++ Headers.space :: (request.version ++ [13])

def line (request : Request) : Bytes :=
  request.method ++ Headers.space :: request.target

def bytes (request : Request) : Bytes :=
  request.line ++ Headers.newline :: request.fields

/-- What the client gets. A file is sent up to its first NUL; if it has none, what the
array held behind it follows, up to the first NUL there. -/
def answer (files : Files) (stack : Stack) (request : Request) : Bytes :=
  if request.method = Headers.post then sendOk
  else if request.method ≠ Headers.get then sendError
  else SendData.header ++ text (SendData.filled stack.buf (files request.name))

end Request

/-! ## The name of the file -/

variable {files : Files} {stack : Stack} {request : Request} {fuel : Nat}

end Service

end RaspberryPi.WebServer
