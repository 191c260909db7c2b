import DiceTables.CommandLine
import DiceTables.Roller.Seeded

/-!
The program: reads its arguments or its input, looks the settings up in the environment, and prints
the reply.
-/

namespace DiceTables.Main

/-- The input: the arguments with a space between them, or else a line from a terminal, or else
everything there is. -/
def readInput (args : List String) : IO String := do
  if args.isEmpty then
    let stdin ← IO.getStdin
    if ← stdin.isTty then
      IO.print "Enter a dice expression or a table: "
      (← IO.getStdout).flush
      stdin.getLine
    else
      readAll stdin ""
  else
    return " ".intercalate args
where
  /-- The rest of a stream, after what has been read already. -/
  readAll (stdin : IO.FS.Stream) (soFar : String) : IO String := do
    let mut text := soFar
    let mut line ← stdin.getLine
    while !line.isEmpty do
      text := text ++ line
      line ← stdin.getLine
    return text

/-- The values of all settings that the environment has. -/
def readSettings : IO (List (String × String)) :=
  Config.keys.filterMapM fun key => do
    return (← IO.getEnv key).map (key, ·)

end DiceTables.Main

open DiceTables in
/-- Runs the command line with a roller seeded by chance. -/
def main (args : List String) : IO UInt32 := do
  let settings ← Main.readSettings
  let input ← Main.readInput args
  let bytes ← IO.getRandomBytes 8
  let seed := bytes.toList.foldl (fun n byte => n * 256 + byte.toNat) 0
  let lookup (key : String) : Option String := List.lookup key settings
  match (CommandLine.reply lookup Roller.seeded input).run seed.toUInt64 with
  | none => return 1
  | some (reply, _) =>
    IO.print reply.out
    reply.err.forM IO.eprint
    return reply.status.toUInt32
