import DescriptorExchange.Exchange.Cycle

/-!
A model of the host's side: a list of records that is served one by one in order, and an exchange driven
against it.
-/
namespace DescriptorExchange

/-- Serves the record with the handle asked for, or the first one. The record after it is the next in
the list unless another one is named. -/
structure RecordServer where
  records : List Bytes
  /-- For the own handle of a record, the handle to name as next. -/
  links : List (RecordHandle × RecordHandle)
  deriving Repr, Inhabited

namespace RecordServer

/-- The handle in the header of a record, the terminator if it is too short for one. -/
def handleOf (record : Bytes) : RecordHandle :=
  match RecordHeader.decode record with
  | .ok header => header.handle
  | .error _ => RecordHandle.terminator

/-- The records from the one asked for on. -/
def tail (server : RecordServer) (handle : RecordHandle) : List Bytes :=
  if handle = RecordHandle.terminator then server.records
  else server.records.dropWhile fun record => handleOf record ≠ handle

/-- The body that answers a request for a record. -/
def answer (server : RecordServer) (handle : RecordHandle) : Bytes :=
  match server.tail handle with
  | [] => (RecordResponse.refusal .invalidRecordHandle).encode
  | record :: after =>
    let following := (after.head?.map handleOf).getD RecordHandle.terminator
    let next := (server.links.lookup (handleOf record)).getD following
    (RecordResponse.single next record).encode

end RecordServer

/-- How driving an exchange ended. -/
inductive DriveEnd where
  /-- There was nothing to ask for. -/
  | idle
  | outcome (o : FetchOutcome)
  | failed (e : ExchangeError)
  deriving Repr, Inhabited

/-- Asks a server for record after record, for at most a number of rounds, as long as the exchange wants
to go on. Gives the handles asked for. -/
def Exchange.drive (server : RecordServer) : Nat → DriveEnd → Exchange → Exchange × List RecordHandle × DriveEnd
  | 0, last, x => (x, [], last)
  | rounds + 1, _, x =>
    match x.nextRequest with
    | (x, .error e) => (x, [], .failed e)
    | (x, .ok none) => (x, [], .idle)
    | (x, .ok (some f)) =>
      match x.receive f.cycle (.ok (server.answer f.handle)) with
      | (x, .error e) => (x, [f.handle], .failed e)
      | (x, .ok .proceed) =>
        let (x, asked, stop) := Exchange.drive server rounds (.outcome .proceed) x
        (x, f.handle :: asked, stop)
      | (x, .ok outcome) => (x, [f.handle], .outcome outcome)

end DescriptorExchange
