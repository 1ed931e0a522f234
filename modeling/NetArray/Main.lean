import NetArray.CommandLine.Answer

/-!
# The program

Reads the words of the command line and the settings file, prints the answer and ends with its code.
-/

namespace NetArray.CommandLine

/-- What is in the place of the settings file of a directory. -/
def settingsFileOf (directory : String) : IO SettingsFile := do
  try
    let handle ← IO.FS.Handle.mk (directory ++ "/" ++ Settings.fileName) .read
    return .content (← handle.readBinToEnd)
  catch _ =>
    return .absent

/-- Prints a report and gives its code. -/
def Report.print (report : Report) : IO UInt32 := do
  (← IO.getStdout).putStr report.stdout
  (← IO.getStderr).putStr report.stderr
  return UInt32.ofNat report.code

/-- Answers a command line. -/
def run (words : List String) : IO UInt32 := do
  match Request.parse words with
  | .ok request =>
    let file ← settingsFileOf (request.directory.getD ".")
    (request.answer file).print
  | .error refusal => refusal.answer.print

end NetArray.CommandLine

/-- Answers the command line. -/
def main (words : List String) : IO UInt32 :=
  NetArray.CommandLine.run words
