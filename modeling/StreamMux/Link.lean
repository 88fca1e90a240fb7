/-! Kinds of links. The kind decides whether silence alone can end a session. -/

namespace StreamMux

/-- A reliable stream over TCP, or KCP's reliable stream over UDP. -/
inductive LinkKind
  | tcp
  | kcp
  deriving DecidableEq

namespace LinkKind

instance : Inhabited LinkKind := ⟨.tcp⟩

def name : LinkKind → String
  | .tcp => "tcp"
  | .kcp => "kcp"

/-- The kind runs over datagrams. -/
def isUdp (k : LinkKind) : Bool := k = .kcp

/-- The kind with a name, in ASCII letters of either case; a name that is none is given back in lower
case. -/
def ofName (text : String) : Except String LinkKind :=
  let name := text.map Char.toLower
  if name = "tcp" then .ok .tcp
  else if name = "kcp" ∨ name = "udp" then .ok .kcp
  else .error name

/-- The report of a name that is no kind. -/
def unknownMessage (name : String) : String := "unknown transport kind: " ++ name

end LinkKind

end StreamMux
