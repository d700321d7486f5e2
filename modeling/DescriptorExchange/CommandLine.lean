import DescriptorExchange.Configuration

/-!
The command line: a configuration is looked at before a service runs with it. What is shown is where the
service connects to, whom it talks to, and the topology of its own that it begins with.
-/
namespace DescriptorExchange

structure Options where
  /-- Takes the place of the socket in the configuration. -/
  socket : Option String
  /-- Whether single records and nodes are shown. -/
  verbose : Bool
  deriving DecidableEq, Repr, Inhabited

namespace Options

/-- Reads arguments into options. Every option may be given once. -/
def parse : List String → Options → Except String Options
  | [], options => .ok options
  | [name], options =>
    if name = "-v" ∨ name = "--verbose" then
      if options.verbose then .error "--verbose is given twice" else .ok { options with verbose := true }
    else if name = "-s" ∨ name = "--socket" then .error "--socket needs a path"
    else .error ("unexpected argument " ++ name)
  | name :: value :: rest, options =>
    if name = "-v" ∨ name = "--verbose" then
      if options.verbose then .error "--verbose is given twice"
      else parse (value :: rest) { options with verbose := true }
    else if name = "-s" ∨ name = "--socket" then
      if options.socket.isSome then .error "--socket is given twice"
      else parse rest { options with socket := some value }
    else .error ("unexpected argument " ++ name)

def socketOf (options : Options) (c : Configuration) : String := options.socket.getD c.socket

/-- A record by its handle and bytes. -/
def recordLine (handle : RecordHandle) (record : Record) : String :=
  "  " ++ Hexadecimal.filled 8 handle.toNat ++
    String.join (record.bytes.map fun b => " " ++ String.ofList ((Hexadecimal.filled 2 b.toNat).toList.drop 2))

/-- The paths of all nodes, in the order of their ids. -/
def pathLines (x : Exchange) : List String :=
  x.tree.nodes.keys.filterMap fun id => (x.path? id).map ("  " ++ ·)

/-- What there is to show about a configuration. -/
def report (options : Options) (c : Configuration) : Except ConfigurationError (List String) := do
  let x ← c.exchange
  let s := c.settings
  let records := x.repository.toList
  let listed (lines : List String) : List String := if options.verbose then lines else []
  return ["socket " ++ options.socketOf c, "host " ++ s.hostEndpoint.text ++ " " ++ s.hostTid.text,
      s!"records {records.length} in " ++ s.ownRange.text]
    ++ listed (records.map fun (handle, record) => recordLine handle record)
    ++ [s!"entities {x.tree.size}"] ++ listed (pathLines x)

/-- Reads a configuration and shows it. -/
def inspect (options : Options) (contents : Bytes) : Except ConfigurationError (List String) := do
  options.report (← Configuration.load (some contents))

end Options
end DescriptorExchange
