import DescriptorExchange.Exchange.Merge

/-!
Importing one record of the host, and forgetting records it has withdrawn. Associations are merged;
all other records are stored, after a sensor or locator record has been found readable. A record that
was imported before is forgotten first.
-/
namespace DescriptorExchange.Exchange

/-- Removes a stored record, and the terminus of a locator record with it. Says whether it was a state
sensor. -/
def dropStored (x : Exchange) (handle : RecordHandle) : Exchange × List RecordHandle × Bool :=
  match x.repository.get? handle with
  | none => (x, [], false)
  | some record =>
    let rest := { x with repository := x.repository.erase handle }
    if record.type = .stateSensor then (rest, [handle], true)
    else if record.type = .terminusLocator then
      match decodeRecord TerminusLocator record.bytes with
      | .ok (_, t) => ({ rest with termini := rest.termini.erase t.terminusHandle }, [handle], false)
      | .error _ => (rest, [handle], false)
    else (rest, [handle], false)

/-- Undoes one import. Gives the records that changed or went, and whether a state sensor was among
them. -/
def dropImport (x : Exchange) (hostHandle : RecordHandle) :
    Exchange × Except RepositoryError (List RecordHandle × Bool) :=
  let rest := { x with imports := x.imports.erase hostHandle }
  match x.imports[hostHandle]? with
  | none => (x, .ok ([], false))
  | some (.stored handle) =>
    let (rest, touched, sensor) := rest.dropStored handle
    (rest, .ok (touched, sensor))
  | some (.merged _ children record) =>
    match unmergeAll record children rest with
    | (rest, .error e) => (rest, .error e)
    | (rest, .ok touched) => (rest, .ok (touched, false))

def dropImports :
    List RecordHandle → Exchange → Exchange × Except RepositoryError (List RecordHandle × Bool)
  | [], x => (x, .ok ([], false))
  | hostHandle :: rest, x =>
    match x.dropImport hostHandle with
    | (x, .error e) => (x, .error e)
    | (x, .ok (touched, sensor)) =>
      match dropImports rest x with
      | (x, .error e) => (x, .error e)
      | (x, .ok (more, sensors)) => (x, .ok (touched ++ more, sensor || sensors))

/-- Removes what the listed records of the host brought in, and rebuilds the sensor index when a state
sensor went. Gives the records that changed or went. -/
def forget (x : Exchange) (hostHandles : List RecordHandle) :
    Exchange × Except RepositoryError HandleSet :=
  match dropImports hostHandles x with
  | (x, .error e) => (x, .error e)
  | (x, .ok (touched, sensors)) =>
    (if sensors then x.publishSensors else x, .ok (Std.ExtTreeSet.ofList touched))

/-- Stores a record of the host as one of its own. -/
def store (x : Exchange) (hostHandle : RecordHandle) (record : Bytes) :
    Exchange × Except RepositoryError Unit :=
  match x.repository.insert .host record with
  | .error e => (x, .error e)
  | .ok (repository, handle) =>
    let kept := { x with repository, imports := x.imports.insert hostHandle (.stored handle)
                         counts.stored := x.counts.stored + 1 }
    (kept.touch [handle], .ok ())

/-- Sorts a record by its type. -/
def classify (x : Exchange) (header : RecordHeader) (record : Bytes) :
    Exchange × Except RepositoryError Unit :=
  if header.type = .entityAssociation then
    match decodeRecord Association record with
    | .ok (_, a) => x.merge header.handle a
    | .error _ => (x.skip, .ok ())
  else if header.type = .stateSensor then
    match decodeRecord StateSensor record with
    | .ok _ => x.store header.handle record
    | .error _ => (x.skip, .ok ())
  else if header.type = .terminusLocator then
    match decodeRecord TerminusLocator record with
    | .ok (_, t) =>
      { x with termini := x.termini.insert t.terminusHandle (.ofLocator t) }.store header.handle record
    | .error _ => (x.skip, .ok ())
  else x.store header.handle record

/-- Imports one record of the host. A record that cannot be read is skipped. -/
def importRecord (x : Exchange) (record : Bytes) : Exchange × Except RepositoryError Unit :=
  match RecordHeader.split record with
  | .error _ => (x.skip, .ok ())
  | .ok (header, _) =>
    let noted := x.mapCycle fun c => { c with seen := c.seen.insert header.handle }
    if header.handle ∈ noted.imports then
      match noted.forget [header.handle] with
      | (x, .error e) => (x, .error e)
      | (x, .ok touched) => (x.touch touched.toList).classify header record
    else noted.classify header record

end DescriptorExchange.Exchange
