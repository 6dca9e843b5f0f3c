import ExtraAccounts.Resolution.Failure

/-!
# Log lines

What a resolution and the stores it asks write to the log. An entry is written as its level and
its text.
-/

namespace ExtraAccounts

/-- How detailed an entry is. -/
inductive LogLevel where
  | debug
  | trace
deriving DecidableEq, Repr

instance : ToString LogLevel where
  toString
    | .debug => "DEBUG"
    | .trace => "TRACE"

/-- One thing worth a log line. -/
inductive LogEntry where
  | fetchingConfiguration (address : Address)
  | decodeFailed (cause : DecodeError)
  | recordCount (count : Nat)
  | recordResolved (index : Nat) (strategy : Strategy) (account : AccountMeta)
  | recordFailed (index : Nat) (cause : Failure)
  | prefetching (addresses : List Address)
  | memoHit (address : Address)
  | overlayServing (address : Address)
deriving DecidableEq

namespace LogEntry

def level : LogEntry → LogLevel
  | fetchingConfiguration _ | decodeFailed _ | recordCount _ | recordFailed .. => .debug
  | recordResolved .. | prefetching _ | memoHit _ | overlayServing _ => .trace

def text : LogEntry → String
  | fetchingConfiguration address => s!"fetching configuration account {address}"
  | decodeFailed cause => s!"configuration decode failed: {cause}"
  | recordCount count => s!"{count} extra account metas to resolve"
  | recordResolved index strategy account =>
    let name := strategy.name
    s!"record {index} ({name}) resolved to {account}"
  | recordFailed index cause => s!"record {index} failed: {cause}"
  | prefetching addresses =>
    let count := addresses.length
    let list := ", ".intercalate (addresses.map toString)
    s!"prefetching {count} seed accounts: {list}"
  | memoHit address => s!"memo hit {address}"
  | overlayServing address => s!"overlay serving {address}"

instance : ToString LogEntry where
  toString entry := toString entry.level ++ " " ++ entry.text

end LogEntry

end ExtraAccounts
