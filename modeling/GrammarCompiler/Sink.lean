import GrammarCompiler.Diagnostic
import GrammarCompiler.Synthesis.Synthesize

/-!
# Writing the generated text

A sink takes bytes in writes.  It may take only so many bytes per write and in
all, and its flush may fail.  Every operation gives the sink that it leaves.
Nothing is done to the sink unless compilation succeeds.
-/

namespace GrammarCompiler

/-- A sink for bytes, with what was done to it so far. -/
structure Sink where
  /-- The most bytes that one write takes. -/
  chunk? : Option Nat := none
  /-- The most bytes that are taken in all. -/
  limit? : Option Nat := none
  /-- A write to a full sink fails; otherwise it takes nothing. -/
  failsWhenFull : Bool := false
  /-- The complaint of a flush that fails. -/
  flushError? : Option String := none
  /-- The bytes that were taken. -/
  taken : List UInt8 := []
  /-- How often the sink was flushed. -/
  flushes : Nat := 0
  deriving DecidableEq, Inhabited

namespace Sink

/-- The complaint of a full sink. -/
def fullMessage : String := "sink is full"

/-- The complaint about a write that takes nothing. -/
def incompleteMessage : String := "failed to write whole buffer"

/-- The number of bytes that may still be taken, if there is a limit. -/
def room? (sink : Sink) : Option Nat :=
  sink.limit?.map (· - sink.taken.length)

/-- No more bytes are taken. -/
def isFull (sink : Sink) : Bool :=
  sink.room? == some 0

/-- The first bytes, as many as a limit allows that may be missing. -/
def firstBytes (limit? : Option Nat) (bytes : List UInt8) : List UInt8 :=
  match limit? with
  | some limit => bytes.take limit
  | none => bytes

/-- Write some of the bytes offered: how many were taken. -/
def write (sink : Sink) (offered : List UInt8) : Except String Nat × Sink :=
  if sink.isFull then
    (if sink.failsWhenFull then .error fullMessage else .ok 0, sink)
  else
    let bytes := firstBytes sink.room? (firstBytes sink.chunk? offered)
    (.ok bytes.length, { sink with taken := sink.taken ++ bytes })

/-- Write bytes until all are taken, a write fails or one takes nothing. -/
def writeAll (sink : Sink) : List UInt8 → Except String Unit × Sink
  | [] => (.ok (), sink)
  | byte :: bytes =>
      match sink.write (byte :: bytes) with
      | (.error message, sink) => (.error message, sink)
      | (.ok 0, sink) => (.error incompleteMessage, sink)
      | (.ok (count + 1), sink) => sink.writeAll (bytes.drop count)
termination_by bytes => bytes.length
decreasing_by
  rw [List.length_drop, List.length_cons]
  omega

/-- Flush the sink. -/
def flush (sink : Sink) : Except String Unit × Sink :=
  (sink.flushError?.elim (.ok ()) .error, { sink with flushes := sink.flushes + 1 })

/-- Write all bytes and flush. -/
def deliver (sink : Sink) (bytes : List UInt8) : Except String Unit × Sink :=
  match sink.writeAll bytes with
  | (.error message, sink) => (.error message, sink)
  | (.ok (), sink) => sink.flush

end Sink

/-- Why the text of a tree did not get into a sink. -/
inductive DeliveryFailure where
  /-- There is no text. -/
  | compilation (failure : Failure)
  /-- The sink did not take the text. -/
  | output (reason target : String)
  deriving DecidableEq

/-- The diagnostic of a failure. -/
def DeliveryFailure.diagnostic? (settings : Settings) : DeliveryFailure → Option Diagnostic
  | .compilation failure => failure.diagnostic? settings
  | .output reason target => some (.output reason target)

/-- Compile a tree and write the text to a sink.  A sink that does not take it is
reported with the name of the grammar file. -/
def compileInto (settings : Settings) (tree : Node) (sink : Sink) :
    Except DeliveryFailure Unit × Sink :=
  match compile settings tree with
  | .error failure => (.error (.compilation failure), sink)
  | .ok text =>
      let (outcome, sink) := sink.deliver text.toUTF8.toList
      (outcome.mapError (.output · settings.file), sink)

end GrammarCompiler
