import LLMQore.Json

/-!
# LLMQore.Rpc.LineFramer

The framing of newline-terminated lines (`Rpc::LineFramer`), and of JSON messages that are a
line each (`Rpc::NdJsonCodec`).
-/

namespace LLMQore.Rpc

open Bytes

structure LineFramer where
  buffer : Bytes := []
  maxBufferBytes : Int := 16 * 1024 * 1024
  deriving DecidableEq

namespace LineFramer

/-- A line without the carriage return before its end. -/
def dropCr (line : Bytes) : Bytes := if line.getLast? = some cr then line.dropLast else line

/-- The loop of `append`: the lines that are complete and not empty, and what follows
them. `line` is what was scanned since the last line end. -/
def scan (line : Bytes) : Bytes → List Bytes × Bytes
  | [] => ([], line)
  | c :: rest =>
      if c = lf then
        let r := scan [] rest
        (if (dropCr line).isEmpty then r.1 else dropCr line :: r.1, r.2)
      else scan (line ++ [c]) rest

/-- `append`. -/
def append (f : LineFramer) (data : Bytes) : LineFramer × List Bytes :=
  let r := scan [] (f.buffer ++ data)
  let buffer :=
    if 0 < f.maxBufferBytes && f.maxBufferBytes < (r.2.length : Int) then [] else r.2
  ({ f with buffer }, r.1)

def clear (f : LineFramer) : LineFramer := { f with buffer := [] }

def hasIncompleteData (f : LineFramer) : Bool := !f.buffer.isEmpty

end LineFramer

structure NdJsonCodec where
  framer : LineFramer := {}
  deriving DecidableEq

namespace NdJsonCodec

/-- `encode`. -/
def encode (json : JsonCodec) (message : JsonObject) : String := json.toJson message ++ "\n"

/-- `decode`: a line that is no object is dropped. -/
def decode (json : JsonCodec) (c : NdJsonCodec) (data : Bytes) : NdJsonCodec × List JsonObject :=
  let r := c.framer.append data
  ({ framer := r.1 }, r.2.filterMap fun line =>
    match json.fromJson line with
    | .object o => some o
    | _ => none)

def clear (c : NdJsonCodec) : NdJsonCodec := { framer := c.framer.clear }

end NdJsonCodec

end LLMQore.Rpc
