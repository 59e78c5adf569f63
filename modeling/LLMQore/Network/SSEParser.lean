import LLMQore.Bytes
import LLMQore.Streaming.Transducer

/-!
# LLMQore.Network.SSEParser

The parser of server-sent events (`SSEParser`).

In `append` the index into the buffer is the split of the buffer into the line
scanned so far and the bytes still to scan.
-/

namespace LLMQore.Network

open Bytes Streaming

structure SSEEvent where
  type : String := ""
  data : Bytes := []
  id : Bytes := []
  deriving DecidableEq

structure SSEParser where
  buffer : Bytes := []
  current : SSEEvent := {}
  idBuffer : Bytes := []
  lastEventId : Bytes := []
  retryMs : Option Int := none
  maxBufferBytes : Int := 16 * 1024 * 1024
  skipLineFeed : Bool := false
  droppingEvent : Bool := false
  deriving DecidableEq

namespace SSEParser

def intMax : Int := 2 ^ 31 - 1

/-- `dispatch`. -/
def dispatch (p : SSEParser) : SSEParser × List SSEEvent :=
  let p := { p with lastEventId := p.idBuffer }
  let events :=
    if !p.droppingEvent && !p.current.data.isEmpty then
      [{ p.current with
          type := if p.current.type.isEmpty then "message" else p.current.type
          id := p.lastEventId }]
    else []
  ({ p with current := {}, droppingEvent := false }, events)

/-- The field of a line, and its value without one leading space. -/
def splitField (line : Bytes) : Bytes × Bytes :=
  if colon ∈ line then
    let value := line.drop (line.idxOf colon + 1)
    (line.take (line.idxOf colon), if value.head? = some space then value.tail else value)
  else (line, [])

/-- The field `data` of `processLine`. -/
def addData (p : SSEParser) (value : Bytes) : SSEParser :=
  if p.droppingEvent then p
  else if 0 < p.maxBufferBytes &&
      p.maxBufferBytes < ((p.current.data.length + value.length : Nat) : Int) then
    { p with current := { p.current with data := [] }, droppingEvent := true }
  else
    let data := if p.current.data.isEmpty then p.current.data else p.current.data ++ [lf]
    { p with current := { p.current with data := data ++ value } }

/-- The field `retry` of `processLine`; a number that is no `int` gives its maximum. -/
def setRetry (p : SSEParser) (value : Bytes) : SSEParser :=
  if !value.isEmpty && value.all fun c => 48 ≤ c && c ≤ 57 then
    { p with retryMs := some (min (decimal value) intMax) }
  else p

/-- `processLine` on a line that is neither blank nor a comment. -/
def processField (p : SSEParser) (field value : Bytes) : SSEParser :=
  if field = ascii "event" then
    { p with current := { p.current with type := value.toUtf8String } }
  else if field = ascii "data" then p.addData value
  else if field = ascii "id" then
    if 0 ∈ value then p else { p with idBuffer := value }
  else if field = ascii "retry" then p.setRetry value
  else p

/-- `processLine`. -/
def processLine (p : SSEParser) (line : Bytes) : SSEParser × List SSEEvent :=
  if line.isEmpty then p.dispatch
  else if line.head? = some colon then (p, [])
  else (p.processField (splitField line).1 (splitField line).2, [])

/-- The loop of `append`: `line` is what was scanned since the last line end. -/
def scan (p : SSEParser) (line : Bytes) : Bytes → SSEParser × List SSEEvent
  | [] => ({ p with buffer := line }, [])
  | c :: rest =>
      if c ≠ lf ∧ c ≠ cr then scan p (line ++ [c]) rest
      else
        let (p, events) := p.processLine line
        if c = cr then
          match rest with
          | [] => ({ p with buffer := [], skipLineFeed := true }, events)
          | d :: rest' =>
              if d = lf then emit events (scan p [] rest')
              else emit events (scan p [] (d :: rest'))
        else emit events (scan p [] rest)

/-- The end of `append`: a line that has grown beyond the limit is dropped. -/
def enforceLimit (p : SSEParser) : SSEParser :=
  if 0 < p.maxBufferBytes && p.maxBufferBytes < (p.buffer.length : Int) then
    { p with buffer := [], current := {} }
  else p

/-- `append`. -/
def append (p : SSEParser) (chunk : Bytes) : SSEParser × List SSEEvent :=
  let r :=
    match p.skipLineFeed, chunk with
    | true, c :: rest =>
        scan { p with skipLineFeed := false } p.buffer (if c = lf then rest else c :: rest)
    | _, chunk => scan p p.buffer chunk
  (r.1.enforceLimit, r.2)

/-- `clear`. -/
def clear (p : SSEParser) : SSEParser := { maxBufferBytes := p.maxBufferBytes }

/-- `flush`. -/
def flush (p : SSEParser) : SSEParser × List SSEEvent :=
  let p := { p with skipLineFeed := false }
  let (p, events) := if p.buffer.isEmpty then (p, []) else p.append [lf]
  let (p, last) := p.dispatch
  (p.clear, events ++ last)

/-- The `data` lines of `format`: one for each piece between line feeds. -/
def formatData (data : Bytes) : Bytes :=
  if data.isEmpty then ascii "data:" ++ crlf
  else (data.splitOn lf).flatMap fun line => ascii "data: " ++ line ++ crlf

/-- `format`. -/
def format (data type id : Bytes) : Bytes :=
  (if !type.isEmpty && type != ascii "message" then ascii "event: " ++ type ++ crlf else []) ++
    (formatData data ++ ((if !id.isEmpty then ascii "id: " ++ id ++ crlf else []) ++ crlf))

end SSEParser

end LLMQore.Network
