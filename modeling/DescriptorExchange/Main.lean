import DescriptorExchange.CommandLine

/-!
Reads a configuration from standard input and shows what a service with it begins with.
-/
namespace DescriptorExchange

/-- Everything that standard input still holds. -/
partial def readAll (input : IO.FS.Stream) (read : ByteArray) : IO ByteArray := do
  let more ← input.read 65536
  if more.isEmpty then return read else readAll input (read ++ more)

end DescriptorExchange

open DescriptorExchange

def main (arguments : List String) : IO UInt32 := do
  match Options.parse arguments default with
  | .error message =>
    IO.eprintln ("error: " ++ message)
    return 2
  | .ok options =>
    let contents ← readAll (← IO.getStdin) ByteArray.empty
    match options.inspect contents.data.toList with
    | .error e =>
      IO.eprintln ("error: " ++ e.message)
      return 1
    | .ok lines =>
      lines.forM fun line => IO.println line
      return 0
