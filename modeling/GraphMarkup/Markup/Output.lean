import GraphMarkup.Error

/-!
# Outputs

* `Output` : what takes pieces of text and may fail to;
* text itself, which takes every piece;
* `Sink` : bytes with limited room, which takes what fits and then refuses.
-/

namespace GraphMarkup

/-- What takes pieces of text. -/
class Output (ο : Type) where
  write : String → EStateM Error ο Unit
  flush : EStateM Error ο Unit

/-- A text under construction takes every piece. -/
instance : Output String where
  write piece := modify (· ++ piece)
  flush := pure ()

/-- The bytes received, the number of bytes for which there is still room if there is a limit, the text of the error
that a piece without room gives, and the text of the error that every flush gives, if there is one. -/
structure Sink where
  received : ByteArray := ByteArray.empty
  room : Option Nat := none
  refusal : String := "sink is full"
  flushFault : Option String := none

namespace Sink

/-- Takes as many bytes as there is room for. An empty piece always fits. -/
def write (piece : String) : EStateM Error Sink Unit := fun sink =>
  let bytes := piece.toUTF8
  match sink.room with
  | none => .ok () { sink with received := sink.received ++ bytes }
  | some room =>
    if bytes.size ≤ room then
      .ok () { sink with received := sink.received ++ bytes, room := some (room - bytes.size) }
    else
      .error (.writer (.other sink.refusal))
        { sink with received := sink.received ++ bytes.extract 0 room, room := some 0 }

def flush : EStateM Error Sink Unit := fun sink =>
  match sink.flushFault with
  | some text => .error (.writer (.other text)) sink
  | none => .ok () sink

instance : Output Sink where
  write := write
  flush := flush

end Sink

end GraphMarkup
