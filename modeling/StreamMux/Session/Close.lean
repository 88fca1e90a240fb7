import StreamMux.Session.Basic

/-! The end of a connection and the end of a session. A connection that is closed here tells the peer,
unless the peer closed first, and gives its id back. A session that ends closes every connection it
holds, registered or staged, and cuts short whatever waits for it. -/

namespace StreamMux

namespace Session

/-- Close a connection on this side. -/
def closeConn (conn : Nat) (s : Session) : Session :=
  match s.conns[conn]? with
  | none => s
  | some c =>
    if c.closed then s
    else
      let s := s.changeConn conn fun c => { c with closed := true }.stopWindows
      let s := if c.closing then s else s.postOrDrop { frame := .control .connClose c.id, conn }
      { s with registry := (s.registry.delete c.id).1 }

/-- Close a connection without a word to the peer. -/
def shutConn (conn : Nat) (s : Session) : Session := s.changeConn conn Conn.shutdown

/-- Report what the readers of a connection took, if that is due and the connection is open on both
sides. -/
def reportCredit (conn : Nat) (s : Session) : Session :=
  match s.conns[conn]? with
  | none => s
  | some c =>
    if c.closed ∨ c.closing then s
    else
      match c.inflow.takeCredit s.settings.maxSegment with
      | (_, none) => s
      | (inflow, some credit) =>
        (s.changeConn conn fun c => ({ c with inflow }, [])).postOrDrop
          { frame := .sendOk c.id credit, conn }

/-- The fibers that the end of the session wakes: all loops, and the calls on the session. -/
def cancellable (s : Session) : List Fiber :=
  [.writer, .reader, .acceptor, .pinger, .returns] ++
    (List.range s.calls.length).filterMap fun k =>
      match s.calls[k]? with
      | some c => if c.isCancellable then some (.call k) else none
      | none => none

/-- Stop the write queue, and drop what is in it. -/
def stopOutbox (s : Session) : Session :=
  let (outbox, woken) := s.outbox.stop
  ({ s with outbox := (Queue.drain outbox).1 }).wake woken

/-- Stop the queue of staged connections, and close those in it. -/
def stopStaged (s : Session) : Session :=
  let (staged, woken) := s.staged.stop
  let (staged, conns) := Queue.drain staged
  conns.foldl (fun s conn => s.shutConn conn) (({ s with staged }).wake woken)

/-- End the session, unless it has ended. -/
def close (s : Session) : Session :=
  if s.closed then s
  else
    let (registry, conns) := s.registry.close
    let s := ({ s with closed := true, registry }).note .closed
    let s := conns.foldl (fun s conn => s.shutConn conn) s
    (s.wake s.cancellable).stopOutbox.stopStaged

/-- End the session; it is an error if it has ended. -/
def close? (s : Session) : Except MuxError Session :=
  if s.closed then .error .alreadyClosed else .ok s.close

/-- With its handle dropped and no call left that keeps it, the session ends. -/
def reap (s : Session) : Session :=
  if s.handle ∨ s.calls.any (fun c => c.request.holdsHandle && !c.isOver) then s else s.close

/-- Drop the handle. -/
def dropHandle (s : Session) : Session := ({ s with handle := false }).reap

/-- A call ends with an outcome. -/
def finish (call : Nat) (outcome : Outcome) (s : Session) : Session :=
  ((s.setStage call (.over outcome)).note (.finished call outcome)).reap

end Session

end StreamMux
