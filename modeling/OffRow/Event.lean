namespace OffRow

inductive Level where
  | error
  | warn
  | debug
  | trace
  deriving DecidableEq, Repr

namespace Level

def rank : Level → Nat
  | error => 0
  | warn => 1
  | debug => 2
  | trace => 3

def label : Level → String
  | error => "ERROR"
  | warn => "WARN"
  | debug => "DEBUG"
  | trace => "TRACE"

def ofName? : String → Option Level
  | "error" => some error
  | "warn" => some warn
  | "debug" => some debug
  | "trace" => some trace
  | _ => none

end Level

inductive Event where
  | poolCreated (block : Nat)
  | chunkReserved (block chunk slots capacity : Nat)
  | chunkReleased (block slots capacity : Nat)
  | blockAllocated (block index : Nat)
  | blockRelocated (block source target : Nat)
  | liveAtTeardown (block live : Nat)
  | poolLeaked (block leaked : Nat)
  | arenaGrown (size count : Nat)
  | arenaReset (released : Nat)
  deriving DecidableEq, Repr

namespace Event

def level : Event → Level
  | poolCreated .. | chunkReserved .. | chunkReleased .. | arenaGrown .. | arenaReset .. => .debug
  | blockAllocated .. | blockRelocated .. => .trace
  | liveAtTeardown .. => .warn
  | poolLeaked .. => .error

def text : Event → String
  | poolCreated .. => "creating string pool"
  | chunkReserved .. => "string pool reserved chunk"
  | chunkReleased .. => "string pool released chunk"
  | blockAllocated .. => "allocated string block"
  | blockRelocated .. => "relocated string block"
  | liveAtTeardown .. => "string pool still holds live blocks at registry teardown"
  | poolLeaked .. => "string pool dropped while still holding live blocks"
  | arenaGrown .. => "arena reserved new chunk"
  | arenaReset .. => "arena reset"

def numbers : Event → List (String × Nat)
  | poolCreated block => [("block_size", block)]
  | chunkReserved block chunk slots capacity =>
    [("block_size", block), ("chunk_index", chunk), ("slots", slots), ("capacity", capacity)]
  | chunkReleased block slots capacity =>
    [("block_size", block), ("released_slots", slots), ("capacity", capacity)]
  | blockAllocated block index => [("block_size", block), ("index", index)]
  | blockRelocated block source target =>
    [("block_size", block), ("from", source), ("to", target)]
  | liveAtTeardown block live => [("block_size", block), ("live_blocks", live)]
  | poolLeaked block leaked => [("block_size", block), ("leaked_blocks", leaked)]
  | arenaGrown size count => [("chunk_size", size), ("chunk_count", count)]
  | arenaReset released => [("released_chunks", released)]

def render (e : Event) : String :=
  e.numbers.foldl (fun line (key, value) => s!"{line} {key}={value}")
    (e.level.label ++ " " ++ e.text)

end Event

end OffRow
