import StreamMux.Session.Basic
import StreamMux.Buffer.Pool

/-! One-line summaries: a name, then its fields in braces. -/

namespace StreamMux

/-- A name and its fields. -/
def summaryLine (name : String) (fields : List (String × String)) : String :=
  name ++ " \x7b " ++ ", ".intercalate (fields.map fun (field, text) => field ++ ": " ++ text)
    ++ " \x7d"

/-- The name that a summary gives to a kind of link. -/
def LinkKind.label : LinkKind → String
  | .tcp => "Tcp"
  | .kcp => "Kcp"

def Buffer.summary (b : Buffer) : String :=
  summaryLine "PooledBuf" [("len", toString b.bytes.length)]

def Lanes.summary {α : Type} (l : Lanes α) : String :=
  summaryLine "Queue"
    [("priority", toString l.priority.length), ("normal", toString l.normal.length),
      ("stopped", toString l.stopped)]

def Conn.summary (c : Conn) : String :=
  summaryLine "MuxConn"
    [("id", toString c.id.toInt), ("closed", toString c.closed), ("closing", toString c.closing)]

def Session.summary (s : Session) : String :=
  let address :=
    match s.address with
    | some a => "Some(" ++ a ++ ")"
    | none => "None"
  summaryLine "Session"
    [("kind", s.kind.label), ("local_addr", address), ("connections", toString s.registry.size),
      ("closed", toString s.closed)]

end StreamMux
