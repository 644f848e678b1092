/-!
A place for bytes that may run full. A write that does not fit leaves the part that does and fails,
and so does every write after it.
-/

namespace SceneGrammar

/-- `room` is what still fits; without it everything does. `flushes` tells whether a flush
succeeds. -/
structure Sink where
  bytes : ByteArray
  room : Option Nat
  flushes : Bool

namespace Sink

def unlimited : Sink := ⟨.empty, none, true⟩
def ofRoom (room : Nat) : Sink := ⟨.empty, some room, true⟩

/-- Did all the bytes fit? -/
def write (sink : Sink) (bytes : ByteArray) : Bool × Sink :=
  match sink.room with
  | none => (true, { sink with bytes := sink.bytes ++ bytes })
  | some room =>
    if bytes.size ≤ room then
      (true, { sink with bytes := sink.bytes ++ bytes, room := some (room - bytes.size) })
    else (false, { sink with bytes := sink.bytes ++ bytes.extract 0 room, room := some 0 })

theorem bytes_write_of_fits {sink : Sink} {bytes : ByteArray} (h : (sink.write bytes).1 = true) :
    (sink.write bytes).2.bytes = sink.bytes ++ bytes := by
  obtain ⟨before, room, flushes⟩ := sink
  cases room with
  | none => rfl
  | some room =>
    by_cases hr : bytes.size ≤ room
    · simp [write, hr]
    · simp [write, hr] at h

end Sink

end SceneGrammar
