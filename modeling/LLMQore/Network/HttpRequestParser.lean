import LLMQore.Bytes
import Mathlib.Data.List.AList

/-!
# LLMQore.Network.HttpRequestParser

The parser of HTTP requests (`HttpRequestParser`).

The parser takes a header block off its buffer before it looks at it, and keeps what it
read of it also where it then reports an error.
-/

namespace LLMQore.Network

open Bytes

/-- `HttpRequest`. -/
structure HttpRequest where
  method : Bytes := []
  target : Bytes := []
  httpVersion : Bytes := []
  headers : AList (fun _ : Bytes => Bytes) := ∅
  body : Bytes := []

/-- `toLowerAscii`. -/
def toLowerAscii (bytes : Bytes) : Bytes :=
  bytes.map fun c => if 65 ≤ c && c ≤ 90 then c + 32 else c

/-- `HttpRequest::header`; the keys of `headers` are in lower case. -/
def HttpRequest.header (req : HttpRequest) (name : Bytes) : Bytes :=
  (req.headers.lookup (toLowerAscii name)).getD []

namespace HttpRequestParser

inductive Status where
  | needMoreData
  | complete
  | headerOverflow
  | invalidRequestLine
  | invalidContentLength
  | bodyTooLarge
  deriving DecidableEq

inductive Phase where
  | readingHeaders | readingBody | complete
  deriving DecidableEq

end HttpRequestParser

structure HttpRequestParser where
  buffer : Bytes := []
  current : HttpRequest := {}
  phase : HttpRequestParser.Phase := .readingHeaders
  contentLength : Int := 0
  maxHeaderBytes : Int := 32 * 1024
  maxBodyBytes : Int := 8 * 1024 * 1024

namespace HttpRequestParser

/-- A `qsizetype` or `qint64` as an `int`. -/
def toInt32 (n : Int) : Int := Int.bmod n (2 ^ 32)

/-- Where a pattern starts. -/
def indexOf (pattern : Bytes) : Bytes → Option Nat
  | [] => if pattern.isEmpty then some 0 else none
  | c :: rest =>
      if pattern.isPrefixOf (c :: rest) then some 0 else (indexOf pattern rest).map (· + 1)

/-- `m_buffer.indexOf("\r\n\r\n")` as an `int`, negative where there is none. -/
def headerEnd (buffer : Bytes) : Int :=
  match indexOf (crlf ++ crlf) buffer with
  | some n => toInt32 n
  | none => -1

/-- `QByteArray::toLongLong`, of trimmed bytes. -/
def toLongLong (bytes : Bytes) : Option Int :=
  let (negative, digits) :=
    match bytes with
    | 45 :: rest => (true, rest)
    | 43 :: rest => (false, rest)
    | _ => (false, bytes)
  if digits.isEmpty || !(digits.all fun c => 48 ≤ c && c ≤ 57) then none
  else
    let n : Int := if negative then -(decimal digits : Int) else decimal digits
    if -2 ^ 63 ≤ n ∧ n < 2 ^ 63 then some n else none

/-- `feed`. -/
def feed (p : HttpRequestParser) (bytes : Bytes) : HttpRequestParser :=
  { p with buffer := p.buffer ++ bytes }

/-- A line of the header block, in `parseHeaderBlock`. -/
def addHeader (req : HttpRequest) (line : Bytes) : HttpRequest :=
  let line := line.trimmed
  if colon ∈ line ∧ 0 < line.idxOf colon then
    let key := toLowerAscii (Bytes.trimmed (line.take (line.idxOf colon)))
    let value := Bytes.trimmed (line.drop (line.idxOf colon + 1))
    { req with headers := req.headers.insert key value }
  else req

/-- The request line, in `parseHeaderBlock`. -/
def setRequestLine (req : HttpRequest) (line : Bytes) : HttpRequest :=
  match (Bytes.trimmed line).splitOn space with
  | method :: target :: httpVersion :: _ => { req with method, target, httpVersion }
  | _ => req

/-- `parseHeaderBlock`. -/
def parseHeaderBlock (p : HttpRequestParser) (headerEnd : Nat) : HttpRequestParser :=
  let lines := (p.buffer.take headerEnd).splitOn lf
  let req :=
    match lines with
    | [] => p.current
    | first :: rest => rest.foldl addHeader (setRequestLine p.current first)
  { p with buffer := p.buffer.drop (headerEnd + 4), current := req }

/-- The part of `parseNext` that reads the length of the body, with the error if there is
one. -/
def readLength (p : HttpRequestParser) : Option Status × HttpRequestParser :=
  let cl := p.current.header (ascii "content-length")
  if cl.isEmpty then (none, { p with contentLength := 0, phase := .readingBody })
  else
    match toLongLong cl with
    | none => (some .invalidContentLength, { p with contentLength := 0 })
    | some n =>
        let p := { p with contentLength := n }
        if n < 0 then (some .invalidContentLength, p)
        else if p.maxBodyBytes < n then (some .bodyTooLarge, p)
        else (none, { p with phase := .readingBody })

/-- The part of `parseNext` that takes the body. -/
def readBody (p : HttpRequestParser) : Status × HttpRequestParser :=
  if (p.buffer.length : Int) < p.contentLength then (.needMoreData, p)
  else
    let n := (toInt32 p.contentLength).toNat
    (.complete,
      { p with
        current := { p.current with body := p.buffer.take n }
        buffer := p.buffer.drop n
        phase := .complete })

/-- The part of `parseNext` that reads the header block. -/
def readHeaders (p : HttpRequestParser) : Status × HttpRequestParser :=
  let headerEnd := headerEnd p.buffer
  if headerEnd < 0 then
    (if p.maxHeaderBytes < p.buffer.length then .headerOverflow else .needMoreData, p)
  else
    let p := p.parseHeaderBlock headerEnd.toNat
    if p.current.method.isEmpty || p.current.target.isEmpty || p.current.httpVersion.isEmpty then
      (.invalidRequestLine, p)
    else
      match p.readLength with
      | (some error, p) => (error, p)
      | (none, p) => p.readBody

/-- `parseNext`. -/
def parseNext (p : HttpRequestParser) : Status × HttpRequestParser :=
  match p.phase with
  | .complete => (.complete, p)
  | .readingHeaders => p.readHeaders
  | .readingBody => p.readBody

/-- `takeRequest`. -/
def takeRequest (p : HttpRequestParser) : HttpRequest × HttpRequestParser :=
  (p.current, { p with current := {}, contentLength := 0, phase := .readingHeaders })

end HttpRequestParser

end LLMQore.Network
