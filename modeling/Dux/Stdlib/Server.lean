import Dux.Runtime.Str

/-!
# A server for HTTP

`HttpServer` of `stdlib/net/server.dux` over the sockets of `src/runtime/socket_rt.c`: which
connections there are, and what is done with them.  What a client sends is left out, and how much
of a response the socket takes.
-/

namespace Dux.Stdlib.Server

open Dux.Runtime (Bytes)

/-! ## Sockets -/

/-- A `DuxSocket`.  Connections are numbered as they are accepted. -/
inductive DuxSocket
  | listener
  | connection (c : Nat)
  deriving DecidableEq

/-- What the system is asked for. -/
inductive Event
  | create
  | accept (c : Nat)
  | send (s : DuxSocket) (data : Bytes)
  | shutdown (s : DuxSocket)
  | close (s : DuxSocket)
  deriving DecidableEq

/-- What has happened, and how many connections were accepted. -/
structure Net where
  events : List Event := []
  accepted : Nat := 0

def Net.note (net : Net) (events : List Event) : Net :=
  { net with events := net.events ++ events }

/-- How `duxrt_sock_accept` ends: `accept` fails, or there is no memory for the connection. -/
inductive Accepting
  | fails | noMemory | accepts

def duxrtSockNew (created : Bool) (net : Net) : Option DuxSocket × Net :=
  if created then (some .listener, net.note [.create]) else (none, net)

def duxrtSockClose (s : Option DuxSocket) (net : Net) : Net :=
  match s with
  | none => net
  | some s => net.note [.close s]

def duxrtSockAccept (s : Option DuxSocket) (how : Accepting) (net : Net) :
    Option DuxSocket × Net :=
  match s, how with
  | some .listener, .noMemory =>
      (none, ⟨net.events ++ [.accept net.accepted, .close (.connection net.accepted)],
        net.accepted + 1⟩)
  | some .listener, .accepts =>
      (some (.connection net.accepted), ⟨net.events ++ [.accept net.accepted], net.accepted + 1⟩)
  | _, _ => (none, net)

def duxrtSockSendStr (s : Option DuxSocket) (data : Bytes) (net : Net) : Net :=
  match s with
  | none => net
  | some s => net.note [.send s data]

def duxrtSockShutdown (s : Option DuxSocket) (net : Net) : Net :=
  match s with
  | none => net
  | some s => net.note [.shutdown s]

/-! ## The server -/

/-- The members of `HttpServer` but for the port. -/
structure HttpServer where
  listener : Option DuxSocket
  client : Option DuxSocket
  running : Bool

/-- The constructor.  Nothing is done if the socket cannot be bound. -/
def HttpServer.new (created : Bool) (net : Net) : HttpServer × Net :=
  let s := duxrtSockNew created net
  (⟨s.1, none, s.1.isSome⟩, s.2)

def acceptRequest (how : Accepting) (server : HttpServer) (net : Net) : HttpServer × Net :=
  let accepted := duxrtSockAccept server.listener how (duxrtSockClose server.client net)
  ({ server with client := accepted.1 }, accepted.2)

/-- `send_response`, with what `to_wire` makes of the response. -/
def sendResponse (wire : Bytes) (server : HttpServer) (net : Net) : HttpServer × Net :=
  if server.client.isSome then
    let sent := duxrtSockSendStr server.client wire net
    ({ server with client := none },
      duxrtSockClose server.client (duxrtSockShutdown server.client sent))
  else (server, net)

/-- The destructor. -/
def destroy (server : HttpServer) (net : Net) : Net :=
  duxrtSockClose server.listener (duxrtSockClose server.client net)

inductive Call
  | acceptRequest (how : Accepting)
  | sendResponse (wire : Bytes)
  | stop

def Call.run (server : HttpServer) (net : Net) : Call → HttpServer × Net
  | .acceptRequest how => Server.acceptRequest how server net
  | .sendResponse wire => Server.sendResponse wire server net
  | .stop => ({ server with running := false }, net)

/-- Some calls, and the destructor behind them. -/
def finish (server : HttpServer) (net : Net) : List Call → Net
  | [] => destroy server net
  | c :: calls => finish (c.run server net).1 (c.run server net).2 calls

/-- The events from the constructor to the destructor. -/
def lifetime (created : Bool) (calls : List Call) : List Event :=
  (finish (HttpServer.new created {}).1 (HttpServer.new created {}).2 calls).events

/-! ## Sessions -/

/-- What a server is for: a connection, and the response that its client gets. -/
structure Session where
  connection : Nat
  response : Option Bytes

/-- What happens behind the beginning of a session. -/
def Session.rest (s : Session) : List Event :=
  (s.response.elim [] fun wire =>
      [.send (.connection s.connection) wire, .shutdown (.connection s.connection)]) ++
    [.close (.connection s.connection)]

def Session.events (s : Session) : List Event := .accept s.connection :: s.rest

/-- The first response before the next request. -/
def responseIn : List Call → Option Bytes
  | [] => none
  | .acceptRequest _ :: _ => none
  | .sendResponse wire :: _ => some wire
  | .stop :: calls => responseIn calls

/-- A session for each connection, from a number on. -/
def sessions (c : Nat) : List Call → List Session
  | [] => []
  | .acceptRequest .accepts :: calls => ⟨c, responseIn calls⟩ :: sessions (c + 1) calls
  | .acceptRequest .noMemory :: calls => ⟨c, none⟩ :: sessions (c + 1) calls
  | _ :: calls => sessions c calls

/-- What is left of the session that a server is in. -/
def unfinished (client : Option Nat) (calls : List Call) : List Event :=
  client.elim [] fun c => Session.rest ⟨c, responseIn calls⟩

theorem close_client (client : Option Nat) (net : Net) :
    duxrtSockClose (client.map .connection) net =
      net.note (client.elim [] fun c => [.close (.connection c)]) := by
  cases client with
  | none => exact congrArg (Net.mk · net.accepted) (List.append_nil net.events).symm
  | some c => rfl

theorem finish_acceptRequest {client : Option Nat} {running : Bool} {net : Net} {how : Accepting}
    {calls : List Call}
    (ih : ∀ (client : Option Nat) (net : Net),
      (finish ⟨some .listener, client.map .connection, running⟩ net calls).events =
        net.events ++ unfinished client calls ++
          (sessions net.accepted calls).flatMap Session.events ++ [.close .listener]) :
    (finish ⟨some .listener, client.map .connection, running⟩ net
        (.acceptRequest how :: calls)).events =
      net.events ++ unfinished client (.acceptRequest how :: calls) ++
        (sessions net.accepted (.acceptRequest how :: calls)).flatMap Session.events ++
          [.close .listener] := by
  have left : unfinished client (.acceptRequest how :: calls) =
      client.elim [] fun c => [.close (.connection c)] := by
    cases client <;> rfl
  rw [finish, Call.run, acceptRequest, close_client, left]
  cases how with
  | fails => exact (ih none _).trans (by rw [unfinished, Option.elim_none, List.append_nil]; rfl)
  | noMemory =>
      apply (ih none _).trans
      simp [duxrtSockAccept, unfinished, sessions, Session.events, Session.rest, Net.note]
  | accepts =>
      apply (ih (some net.accepted) _).trans
      simp [duxrtSockAccept, unfinished, sessions, Session.events, Net.note]

/-- Behind any calls, the session that the server is in goes on, and then the other ones follow. -/
theorem events_finish (calls : List Call) (client : Option Nat) (running : Bool) (net : Net) :
    (finish ⟨some .listener, client.map .connection, running⟩ net calls).events =
      net.events ++ unfinished client calls ++
        (sessions net.accepted calls).flatMap Session.events ++ [.close .listener] := by
  induction calls generalizing client running net with
  | nil =>
      rw [finish, destroy, close_client]
      cases client <;>
        simp [duxrtSockClose, Net.note, unfinished, sessions, Session.rest, responseIn]
  | cons c calls ih =>
      cases c with
      | acceptRequest how => exact finish_acceptRequest fun client net => ih client running net
      | stop =>
          apply (ih client false net).trans
          cases client <;> rfl
      | sendResponse wire =>
          cases client with
          | none => exact ih none running net
          | some c =>
              apply (ih none running _).trans
              simp [Call.run, sendResponse, duxrtSockSendStr, duxrtSockShutdown, duxrtSockClose,
                Net.note, unfinished, sessions, Session.rest, responseIn]

theorem finish_without_listener (calls : List Call) (running : Bool) (net : Net) :
    finish ⟨none, none, running⟩ net calls = net := by
  induction calls generalizing running with
  | nil => rfl
  | cons c calls ih =>
      cases c with
      | acceptRequest how => exact ih running
      | sendResponse wire => exact ih running
      | stop => exact ih false

/-- Whatever is called, a server handles one connection after the other: each is accepted, gets the
first response that is sent before the next request, if there is one, and is closed, once and before
anything is done with another one.  The listener is closed behind all of them. -/
theorem lifetime_eq_sessions (created : Bool) (calls : List Call) :
    lifetime created calls =
      if created then
        .create :: ((sessions 0 calls).flatMap Session.events ++ [.close .listener])
      else [] := by
  cases created with
  | false => exact congrArg Net.events (finish_without_listener calls false {})
  | true =>
      apply (events_finish calls none true _).trans
      rfl

end Dux.Stdlib.Server
