import ImportQuery.CommandLine.Command

/-!
# The program

Reads what a command needs, and writes what it answers.
-/

namespace ImportQuery

/-- What the system says about an error: its text and its number. -/
def systemMessage : IO.Error → String
  | .alreadyExists _ code text | .otherError code text | .resourceBusy code text
  | .resourceVanished code text | .unsupportedOperation code text | .hardwareFault code text
  | .unsatisfiedConstraints code text | .illegalOperation code text | .protocolError code text
  | .timeExpired code text | .interrupted _ code text | .noFileOrDirectory _ code text
  | .invalidArgument _ code text | .permissionDenied _ code text | .resourceExhausted _ code text
  | .inappropriateType _ code text | .noSuchThing _ code text => s!"{text} (os error {code})"
  | .unexpectedEof => "unexpected end of file"
  | .userError text => text

/-- The bytes that a command needs. A terminal gives none. -/
def readSource : Command.Source → IO (Option ByteArray)
  | .nothing => return none
  | .file path => return some (← (← IO.FS.Handle.mk path .read).readBinToEnd)
  | .standardInput => do
    let stdin ← IO.getStdin
    if ← stdin.isTty then return none
    return some (← stdin.readBinToEnd)

/-- The bytes that a command needs, or why they cannot be read. -/
def tryReadSource (source : Command.Source) : IO (Except Failure (Option ByteArray)) := do
  try return .ok (← readSource source)
  catch e => return .error (.io (systemMessage e))

end ImportQuery

open ImportQuery in
def main (args : List String) : IO UInt32 := do
  let report ← match Command.ofWords? args with
    | none => pure ExitReport.usage
    | some c => do pure (ExitReport.ofCommand c (← tryReadSource c.source))
  IO.print report.stdout
  IO.eprint report.stderr
  return report.code.toUInt32
