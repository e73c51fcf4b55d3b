/-
The program: reads the clock and the configuration file, runs the command line and prints what it leaves behind.
-/
import CompactSearch.CommandLine.Run
import Std.Time.DateTime.Timestamp

namespace CompactSearch

/-- The refusal of the system, with its own text. -/
def FileError.ofIO : IO.Error → FileError
  | .alreadyExists _ code reason | .otherError code reason | .resourceBusy code reason | .resourceVanished code reason
  | .unsupportedOperation code reason | .hardwareFault code reason | .unsatisfiedConstraints code reason
  | .illegalOperation code reason | .protocolError code reason | .timeExpired code reason
  | .interrupted _ code reason | .noFileOrDirectory _ code reason | .invalidArgument _ code reason
  | .permissionDenied _ code reason | .resourceExhausted _ code reason | .inappropriateType _ code reason
  | .noSuchThing _ code reason => .system code.toNat reason
  | e => .system 0 e.toString

/-- What reading at a path of the file system gives; nothing stands there if the path leads nowhere. -/
def readPath (path : String) : IO (Option (Except FileError String)) := do
  try
    discard <| IO.FS.realPath path
  catch _ =>
    return none
  try
    return some (FileEntry.ofBytes (← IO.FS.readBinFile path)).read
  catch e =>
    return some (.error (.ofIO e))

/-- The time of the system clock. -/
def clock : IO Instant := do
  let t ← Std.Time.Timestamp.now
  let nanos := t.toNanosecondsSinceUnixEpoch.val
  return ⟨nanos / 1000000000, (nanos % 1000000000).toNat⟩

/-- A batch name that no earlier run has used. -/
def freshBatch (now : Instant) : IO String := do
  let low ← IO.rand 0 (Nat.pow 2 40 - 1)
  let high ← IO.rand 0 (Nat.pow 2 40 - 1)
  return Sql.batchName (now.seconds.toNat * 1000 + now.nanos / 1000000) (high * Nat.pow 2 40 + low)

end CompactSearch

open CompactSearch in
def main (args : List String) : IO UInt32 := do
  let outcome ←
    match CommandLine.parseArguments args with
    | .error stop => pure (CommandLine.stopped stop)
    | .ok a =>
      let now ← clock
      pure (CommandLine.runArguments a (← readPath a.config) (← freshBatch now) now)
  IO.print outcome.output
  unless outcome.errors.isEmpty do IO.eprintln outcome.errors
  return UInt32.ofNat outcome.exitCode
