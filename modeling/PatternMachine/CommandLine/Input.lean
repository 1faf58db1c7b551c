import PatternMachine.Text.Newline
import PatternMachine.Text.Quoted
import PatternMachine.Text.Utf8

/-!
# Inputs

An input is a file or the standard input. It is read piece by piece as UTF-8 text and cut into
lines. A piece with a byte that fits no character ends the reading: the lines that ended in the
pieces before are there, and nothing of this piece or of the line it would have continued. An input
that ends inside a character gives the lines that ended before as well.
-/

namespace PatternMachine.CommandLine

/-- What the system has under the name of a file. -/
inductive Source where
  | content (bytes : List UInt8)
  /-- The file cannot be opened or read, for a reason that has a number and words. -/
  | refused (number : Nat) (reason : String)
  deriving DecidableEq

namespace Source

def missing : Source :=
  .refused 2 "No such file or directory"

def directory : Source :=
  .refused 21 "Is a directory"

end Source

/-- Bytes that are still to be read, and what earlier reading keeps back. -/
structure ByteStream where
  /-- The pieces in which the bytes arrive. -/
  pieces : List (List UInt8) := []
  /-- The beginning of a character whose other bytes are still to come. -/
  pending : List UInt8 := []
  /-- The last character was a carriage return, which may be half of a line end. -/
  heldReturn : Bool := false
  deriving DecidableEq

namespace ByteStream

def pieceSize : Nat := 8192

/-- Cuts bytes into pieces; the first piece has begun, last byte first, and takes `room` more. -/
def cutFrom (room : Nat) (piece : List UInt8) : List UInt8 → List (List UInt8)
  | [] => if piece.isEmpty then [] else [piece.reverse]
  | byte :: rest =>
      match room with
      | 0 => piece.reverse :: cutFrom (pieceSize - 1) [byte] rest
      | room + 1 => cutFrom room (byte :: piece) rest

def ofBytes (bytes : List UInt8) : ByteStream :=
  { pieces := cutFrom pieceSize [] bytes }

end ByteStream

/-- The lines of an input up to its end or up to a problem. -/
structure Reading where
  lines : List String
  problem : Option String := none
  deriving DecidableEq

namespace Reading

def reason : Text.Utf8.Reason → String
  | .invalidStart => "invalid start byte"
  | .invalidContinuation => "invalid continuation byte"
  | .unexpectedEnd => "unexpected end of data"

/-- The bytes that cannot be decoded and their place: a single one with its value. -/
def describe (problem : Text.Utf8.Problem) : String :=
  let place :=
    match problem.bytes with
    | [byte] =>
        "byte 0x" ++ String.ofList (Text.hex 2 byte.toNat) ++ " in position " ++
          toString problem.position
    | bytes =>
        "bytes in position " ++ toString problem.position ++ "-" ++
          toString (problem.position + bytes.length - 1)
  "'utf-8' codec can't decode " ++ place ++ ": " ++ reason problem.reason

/-- What a problem leaves: the lines that ended before, and the stream to go on with. -/
def broken (text : List Char) (problem : Text.Utf8.Problem) (pending : List UInt8)
    (rest : List (List UInt8)) : Reading × ByteStream :=
  (⟨Text.Lines.ofBeginning text, some (describe problem)⟩,
    { pieces := rest, pending := pending, heldReturn := text.getLast? = some '\r' })

/-- Reads pieces behind the texts of the pieces before, last one first. -/
def ofPieces (before : List (List Char)) (pending : List UInt8) :
    List (List UInt8) → Reading × ByteStream
  | [] =>
      let text := before.reverse.flatten
      match (Text.Utf8.decode pending).ending with
      | .complete => (⟨Text.Lines.ofText text, none⟩, {})
      | .invalid problem | .cut _ problem => broken text problem pending []
  | piece :: rest =>
      let decoded := Text.Utf8.decode (pending ++ piece)
      match decoded.ending with
      | .complete => ofPieces (decoded.text :: before) [] rest
      | .cut leftover _ => ofPieces (decoded.text :: before) leftover rest
      | .invalid problem => broken before.reverse.flatten problem pending rest

/-- Reads a stream to its end or to a problem, and gives what is left of the stream. -/
def ofStream (stream : ByteStream) : Reading × ByteStream :=
  ofPieces (if stream.heldReturn then [['\r']] else []) stream.pending stream.pieces

def ofSource (name : String) : Source → Reading
  | .content bytes => (ofStream (.ofBytes bytes)).1
  | .refused number reason =>
      ⟨[], some ("[Errno " ++ toString number ++ "] " ++ reason ++ ": " ++ Text.quote name)⟩

end Reading

structure World where
  file : String → Source := fun _ => .missing
  stdin : ByteStream := {}

namespace World

def stdinName : String := "-"

/-- Reads inputs in order. If the standard input is named again, reading it goes on. -/
def read (world : World) : List String → List (String × Reading)
  | [] => []
  | name :: rest =>
      if name = stdinName then
        let (reading, stdin) := Reading.ofStream world.stdin
        (name, reading) :: read { world with stdin := stdin } rest
      else (name, Reading.ofSource name (world.file name)) :: read world rest

end World

end PatternMachine.CommandLine
