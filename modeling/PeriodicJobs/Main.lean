import PeriodicJobs.CommandLine

set_option autoImplicit false

/- The program: reads the files that its arguments name, and prints the job set. -/
namespace PeriodicJobs

/-- Reads a file, with the fault of its path if it has one. -/
def readFile (path : String) : IO (Except ReadFault (List UInt8)) := do
  if path.contains '\x00' then return .error .zeroInName
  try
    return .ok (← IO.FS.readBinFile path).toList
  catch
    | .inappropriateType _ 21 _ => return .error .isDirectory
    | .inappropriateType _ _ _ => return .error .notDirectory
    | .invalidArgument _ _ _ => return .error .nameTooLong
    | _ => return .error .notFound

def readFiles (paths : List String) : IO Files := do
  let contents ← paths.mapM fun path => do return (path, ← readFile path)
  return fun path => (contents.lookup path).getD (.error .notFound)

end PeriodicJobs

open PeriodicJobs in
def main (arguments : List String) : IO UInt32 := do
  let outcome ←
    match Options.read? {} arguments with
    | none => pure Outcome.misused
    | some options => do
      let files ← readFiles (options.settings.toList ++ options.inputs)
      pure (options.execute files)
  let logged := outcome.logged "mkjobset" (← IO.getEnv "RUST_LOG")
  IO.print logged.output
  if let some report := logged.report then IO.eprintln report
  return UInt32.ofNat logged.exitCode
