import Exchange.Protocol

/-! The order-entry server of `net.cpp`: one connection, and then the server with
all of them. The network decides what each `recv` returns and when it reports the
end of the stream; the handler does not throw, and what it is given is recorded. -/
namespace Exchange

/-- A parsed frame lies between the offset and the end of the data. -/
theorem parseFrame_advances {data payload : Bytes} {offset next : Nat} {type : MessageType}
    (parsed : parseFrame data offset = .ok (some (type, payload, next))) : offset < next ∧ next ≤ data.length := by
  unfold parseFrame throwRuntime at parsed
  split at parsed
  · cases parsed
  · simp only at parsed
    split at parsed
    · cases parsed
    · split at parsed
      · cases parsed
      · cases parsed
        omega

/-- `while (parse_frame(data, offset, type, payload)) visit(type, payload)`: what
the visits returned, and the last offset or the exception that ended the loop. -/
def parseLoop {β : Type} (visit : MessageType → Bytes → Except RuntimeError β) (data : Bytes) (offset : Nat) :
    List β × Except RuntimeError Nat :=
  match parsed : parseFrame data offset with
  | .error fault => ([], .error fault)
  | .ok none => ([], .ok offset)
  | .ok (some (type, payload, next)) =>
    match visit type payload with
    | .error fault => ([], .error fault)
    | .ok result =>
      have := parseFrame_advances parsed
      let (results, last) := parseLoop visit data next
      (result :: results, last)
termination_by data.length - offset
decreasing_by omega

/-- The body of the loop: an event is passed over, another message is decoded
and goes to the handler. -/
def takeMessage (type : MessageType) (payload : Bytes) : Except RuntimeError (Option Command) :=
  if type ≠ .event then (decodeCommand type payload).map some else .ok none

structure Conn where
  /-- `fd >= 0`. -/
  isOpen : Bool := true
  buffer : Bytes := []
  deriving DecidableEq

/-- What the `recv` calls of one `drain_connection` return: some chunks, and then
either the end of the stream or that there is no more for now. -/
structure Arrival where
  chunks : List Bytes
  endOfStream : Bool := false
  deriving DecidableEq

/-- `drain_connection`, with the commands the handler is given. At the end of the
stream it returns before it parses; an exception drops the session. -/
def drainConnection (conn : Conn) (arrival : Arrival) : Conn × List Command :=
  let buffer := conn.buffer ++ arrival.chunks.flatten
  if arrival.endOfStream then ({ isOpen := false, buffer := buffer }, [])
  else
    match parseLoop takeMessage buffer 0 with
    | (taken, .error _) => ({ isOpen := false, buffer := buffer }, taken.reduceOption)
    | (taken, .ok offset) => ({ conn with buffer := buffer.drop offset }, taken.reduceOption)

/-- The loop of `run`, as far as it concerns one connection: a closed one is erased. -/
def serve : Conn → List Arrival → Conn × List Command
  | conn, [] => (conn, [])
  | conn, arrival :: arrivals =>
    if conn.isOpen then
      let (conn, commands) := drainConnection conn arrival
      let (conn, later) := serve conn arrivals
      (conn, commands ++ later)
    else (conn, [])

/-! ## The server -/

/-- A connection with the descriptor it was accepted with. -/
structure Client where
  fd : Nat
  conn : Conn := {}
  deriving DecidableEq

/-- `Conn{client, std::string()}`. -/
def Client.accepted (fd : Nat) : Client := { fd := fd }

structure OrderEntryServer where
  /-- `running_`; `run` is on its thread while it is set. -/
  running : Bool := false
  conns : List Client := []
  deriving DecidableEq

/-- What the kernel answers in one pass of the loop of `run`. -/
structure Poll where
  /-- `poll` returned a positive number. -/
  ready : Bool := true
  /-- What `accept` returns until it fails; nothing where it is not tried. -/
  accepted : List Nat := []
  /-- For a polled descriptor whose events are set, what `recv` returns there. -/
  arrivals : Nat → Option Arrival := fun _ => none

/-- What a pass does that can be seen. -/
inductive ServerEvent where
  | accepted (fd : Nat)
  /-- A connection was drained, and the handler was given these commands. -/
  | drained (fd : Nat) (arrival : Arrival) (commands : List Command)

/-- What happens to the server from outside. `stop` waits for the pass that is
under way, so none comes between the flag and the closing of the connections. -/
inductive ServerAction where
  | start
  | stop
  | pass (kernel : Poll)

namespace OrderEntryServer

/-- The inner `for`: the first connection with this descriptor is drained. A
closed one has the descriptor -1, which is not polled. -/
def drainAt (fd : Nat) (arrival : Arrival) : List Client → List Client × List Command
  | [] => ([], [])
  | client :: clients =>
    if client.conn.isOpen ∧ client.fd = fd then
      let (conn, commands) := drainConnection client.conn arrival
      ({ client with conn } :: clients, commands)
    else
      let (clients, commands) := drainAt fd arrival clients
      (client :: clients, commands)

/-- The loop over the polled descriptors. -/
def drainPolled (arrivals : Nat → Option Arrival) : List Nat → List Client → List Client × List ServerEvent
  | [], clients => (clients, [])
  | fd :: polled, clients =>
    match arrivals fd with
    | none => drainPolled arrivals polled clients
    | some arrival =>
      let (clients, commands) := drainAt fd arrival clients
      let (clients, events) := drainPolled arrivals polled clients
      (clients, .drained fd arrival commands :: events)

/-- One pass of the loop of `run`: the open connections are polled, new ones are
accepted, those with events are drained, and the closed ones are erased. -/
def pass (server : OrderEntryServer) (kernel : Poll) : OrderEntryServer × List ServerEvent :=
  let polled := (server.conns.filter fun client => client.conn.isOpen).map Client.fd
  if kernel.ready then
    let clients := server.conns ++ kernel.accepted.map Client.accepted
    let (clients, drained) := drainPolled kernel.arrivals polled clients
    ({ server with conns := clients.filter fun client => client.conn.isOpen },
      kernel.accepted.map .accepted ++ drained)
  else (server, [])

def step (server : OrderEntryServer) : ServerAction → Except Empty (OrderEntryServer × List ServerEvent)
  | .start => .ok ({ server with running := true }, [])
  | .stop => .ok (if server.running then {} else server, [])
  | .pass kernel => .ok (if server.running then server.pass kernel else (server, []))

end OrderEntryServer
end Exchange
