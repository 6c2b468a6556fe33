import IMSystem.Common.Json
import IMSystem.Gateway.Degradation
import IMSystem.Lib.HttpMessage

/-!
# The health check of the gateway (`gateway/src/http_server.cpp`)

The HTTP server of the gateway shares the `io_context`, and with it the threads, with the TCP
server. It answers whatever it reads with the status `ok`, and none of its handlers raises.

Results:
1. `responseData_eq`: the response is a well-formed HTTP message.
2. `next_of_step`: an event on one side leaves the other side alone.
3. `blind_run`: what the health check says, and what it does not see.
-/

namespace IMSystem.Gateway.HttpServer

open Lib Retry

/-! ## The response -/

/-- `response_data_`. -/
def responseData (body : Bytes) : Bytes :=
  str "HTTP/1.1 200 OK\r\n" ++
    str "Content-Type: application/json\r\n" ++
    str "Content-Length: " ++ toDecimal body.length ++ str "\r\n" ++
    str "Connection: close\r\n\r\n" ++ body

/-- The JSON text of the response; jsoncpp writes members in the order of their names. -/
def health : Json.Tree :=
  .object [(str "service", .string (str "gateway")), (str "status", .string (str "ok"))]

section Server

variable (writeString : Json.Tree → Bytes)

/-- `HandleRequest`. The request goes into the log only. -/
def handleRequest (_requestData : Bytes) : Bytes := responseData (writeString health)

/-- The status `ok`. -/
def ok : Http.Message :=
  Http.framed (str "HTTP/1.1 200 OK") [(str "Content-Type", str "application/json")]
    [(str "Connection", str "close")] (writeString health)

theorem responseData_eq (requestData : Bytes) :
    handleRequest writeString requestData = (ok writeString).encode := by
  have hstatus : str "HTTP/1.1 200 OK\r\n" = str "HTTP/1.1 200 OK" ++ Http.crlf := by decide
  have htype : str "Content-Type: application/json\r\n" =
      Http.headerLine (str "Content-Type", str "application/json") ++ Http.crlf := by decide
  have hlength : Http.headerLine (Http.contentLength, toDecimal (writeString health).length) =
      str "Content-Length: " ++ toDecimal (writeString health).length := rfl
  have hbreak : str "\r\n" = Http.crlf := by decide
  have hconnection : str "Connection: close\r\n\r\n" =
      Http.headerLine (str "Connection", str "close") ++ Http.crlf ++ Http.crlf := by decide
  simp only [handleRequest, responseData, ok, Http.framed, Http.Message.encode, Http.encodeHeaders,
    hstatus, htype, hlength, hbreak, hconnection, List.flatMap_cons, List.flatMap_nil,
    List.cons_append, List.append_assoc, List.nil_append]

theorem ok_wellFormed : (ok writeString).WellFormed :=
  Http.wellFormed_framed (by decide) (by decide) (by decide) _

/-! ## Both servers -/

/-- A connection of the HTTP server. -/
structure Client where
  /-- An `async_read_some` is outstanding. -/
  reading : Bool
  responseData : Bytes
  /-- The bytes of the response that the client has received. -/
  written : Nat
deriving DecidableEq, Repr

structure State where
  gateway : GatewayServer.State
  /-- An `async_accept` of the HTTP server is outstanding. -/
  accepting : Bool
  clients : List Client
deriving DecidableEq, Repr

/-- `GatewayServer::Run`. -/
def State.start (threads : Nat) : State := ⟨.start threads, true, []⟩

inductive Event where
  /-- An event of the TCP server. -/
  | tcp (e : GatewayServer.Event)
  /-- An `async_accept` completes, with a connection or with an error. -/
  | accept (connected : Bool)
  | read (c : Nat) (bytes : Bytes)
  | readError (c : Nat)
  /-- Some more bytes of the response arrive. -/
  | write (c k : Nat)

/-- What a client has received of its response. -/
def Client.received (client : Client) : Bytes := client.responseData.take client.written

variable (J : JsonCpp) (build : Build)

def step (s : State) : Event → Option State
  | .tcp e => (GatewayServer.step J build s.gateway e).map fun gateway => { s with gateway }
  | .accept connected =>
    if 0 < s.gateway.workers ∧ s.accepting = true then
      -- `DoAccept` again in both cases
      if connected = true then some { s with clients := s.clients ++ [⟨true, [], 0⟩] } else some s
    else none
  | .read c bytes =>
    match s.clients[c]? with
    | some client =>
      if 0 < s.gateway.workers ∧ client.reading = true ∧ 1 ≤ bytes.length ∧ bytes.length ≤ 4096 then
        some
          { s with
            clients := s.clients.set c
              { client with reading := false, responseData := handleRequest writeString bytes } }
      else none
    | none => none
  | .readError c =>
    match s.clients[c]? with
    | some client =>
      if 0 < s.gateway.workers ∧ client.reading = true then
        some { s with clients := s.clients.set c { client with reading := false } }
      else none
    | none => none
  | .write c k =>
    match s.clients[c]? with
    | some client =>
      if client.written + k ≤ client.responseData.length then
        some { s with clients := s.clients.set c { client with written := client.written + k } }
      else none
    | none => none

/-- What a client has read is the status once it is complete, and nothing before. -/
def Client.Answered (client : Client) : Prop :=
  client.responseData ≠ [] → Http.decode client.received =
    if client.written < (ok writeString).encode.length then none else some (ok writeString, [])

/-- A health check on a new connection comes to the status `ok`. -/
def Checked (s : State) (request : Bytes) : Prop :=
  ∃ s', run (step writeString J build) s
      [.accept true, .read s.clients.length request,
        .write s.clients.length (ok writeString).encode.length] = some s' ∧
    s'.gateway = s.gateway ∧
    ∃ client, s'.clients[s.clients.length]? = some client ∧
      Http.decode client.received = some (ok writeString, [])

/-- As long as a thread is left, every health check is answered with `ok`, and when none is
left none is. A TCP server that has stopped accepting never accepts again. -/
structure Blind (s : State) : Prop where
  answered : ∀ client ∈ s.clients, client.Answered writeString
  checked : ∀ request, 1 ≤ request.length → request.length ≤ 4096 →
    (Checked writeString J build s request ↔ 0 < s.gateway.workers)
  deaf : s.gateway.accepting = false → ∀ more,
    HoldsAlong (step writeString J build)
      (fun s' => s'.gateway.accepting = false ∧
        s'.gateway.reading.length = s.gateway.reading.length) s more

/-! ## What an event does -/

variable {writeString J build}

/-- Nothing but the response is written. -/
def Client.Sound (writeString : Json.Tree → Bytes) (client : Client) : Prop :=
  client.responseData = [] ∨ client.responseData = (ok writeString).encode

theorem Client.Sound.answered {client : Client} (h : client.Sound writeString) :
    client.Answered writeString := by
  intro hne
  rw [Client.received, h.resolve_left hne]
  exact Http.decode_take (ok_wellFormed writeString) client.written

variable (writeString J build) in
/-- All that an event does: the TCP server moves, or a connection of the HTTP server. -/
inductive Next (s : State) : Event → State → Prop
  | tcp {e : GatewayServer.Event} {gateway : GatewayServer.State} :
    GatewayServer.step J build s.gateway e = some gateway → Next s (.tcp e) { s with gateway }
  | accept {connected : Bool} {clients : List Client} :
    clients = s.clients ∨ clients = s.clients ++ [⟨true, [], 0⟩] →
    Next s (.accept connected) { s with clients }
  | set {e : Event} {c : Nat} {client client' : Client} : s.clients[c]? = some client →
    (client.Sound writeString → client'.Sound writeString) →
    Next s e { s with clients := s.clients.set c client' }

theorem next_of_step {s s' : State} {e : Event} (hstep : step writeString J build s e = some s') :
    Next writeString J build s e s' := by
  cases e with
  | tcp e =>
    obtain ⟨gateway, hgateway, rfl⟩ := Option.map_eq_some_iff.mp hstep
    exact .tcp hgateway
  | accept connected =>
    simp only [step] at hstep
    split at hstep
    · split at hstep
      · cases hstep
        exact .accept (.inr rfl)
      · cases hstep
        exact .accept (.inl rfl)
    · cases hstep
  | read c bytes =>
    simp only [step] at hstep
    split at hstep
    · next client hc =>
      split at hstep
      · cases hstep
        exact .set hc fun _ => .inr (responseData_eq writeString bytes)
      · cases hstep
    · cases hstep
  | readError c =>
    simp only [step] at hstep
    split at hstep
    · next client hc =>
      split at hstep
      · cases hstep
        exact .set hc id
      · cases hstep
    · cases hstep
  | write c k =>
    simp only [step] at hstep
    split at hstep
    · next client hc =>
      split at hstep
      · cases hstep
        exact .set hc id
      · cases hstep
    · cases hstep

/-- The HTTP server accepts, and writes nothing but its response. -/
structure Inv (writeString : Json.Tree → Bytes) (s : State) : Prop where
  accepting : s.accepting = true
  sound : ∀ client ∈ s.clients, client.Sound writeString

theorem Inv.step {s s' : State} {e : Event} (h : Inv writeString s)
    (hstep : step writeString J build s e = some s') : Inv writeString s' := by
  cases next_of_step hstep with
  | tcp hgateway => exact ⟨h.accepting, h.sound⟩
  | accept hclients =>
    refine ⟨h.accepting, fun client hclient => ?_⟩
    obtain rfl | rfl := hclients
    · exact h.sound client hclient
    · obtain hold | hnew := List.mem_append.mp hclient
      · exact h.sound client hold
      · exact .inl (List.mem_singleton.mp hnew ▸ rfl)
  | set hc hsound =>
    refine ⟨h.accepting, fun client hclient => ?_⟩
    obtain hold | rfl := List.mem_or_eq_of_mem_set hclient
    · exact h.sound client hold
    · exact hsound (h.sound _ (List.mem_of_getElem? hc))

/-- A TCP server that does not accept has no new connection. -/
theorem deaf_step {s s' : State} {e : Event} (hdeaf : s.gateway.accepting = false)
    (hstep : step writeString J build s e = some s') :
    s'.gateway.accepting = false ∧ s'.gateway.reading.length = s.gateway.reading.length := by
  cases next_of_step hstep with
  | accept | set => exact ⟨hdeaf, rfl⟩
  | @tcp e gateway hgateway =>
    cases e with
    | accept result =>
      simp only [GatewayServer.step] at hgateway
      split at hgateway
      · next hguard =>
        rw [hdeaf] at hguard
        cases hguard.2
      · cases hgateway
    | read c bytes =>
      simp only [GatewayServer.step] at hgateway
      split at hgateway
      · cases hgateway
        exact ⟨GatewayServer.accepting_onRead hdeaf, GatewayServer.length_onRead s.gateway c bytes⟩
      · cases hgateway
    | readError c =>
      simp only [GatewayServer.step] at hgateway
      split at hgateway
      · cases hgateway
        exact ⟨hdeaf, List.length_set⟩
      · cases hgateway

/-- As long as a thread is left, a health check goes through. -/
theorem checked_of_workers {s : State} (h : Inv writeString s) (hworkers : 0 < s.gateway.workers)
    {request : Bytes} (hlen : 1 ≤ request.length ∧ request.length ≤ 4096) :
    Checked writeString J build s request := by
  have haccept : step writeString J build s (.accept true) =
      some { s with clients := s.clients ++ [⟨true, [], 0⟩] } := by
    simp only [step]
    rw [if_pos ⟨hworkers, h.accepting⟩, if_pos trivial]
  have hread : step writeString J build { s with clients := s.clients ++ [⟨true, [], 0⟩] }
      (.read s.clients.length request) =
      some { s with clients := s.clients ++ [⟨false, (ok writeString).encode, 0⟩] } := by
    simp only [step, List.getElem?_concat_length]
    rw [if_pos ⟨hworkers, trivial, hlen⟩, responseData_eq]
    simp
  have hwrite : step writeString J build
      { s with clients := s.clients ++ [⟨false, (ok writeString).encode, 0⟩] }
      (.write s.clients.length (ok writeString).encode.length) =
      some
        { s with
          clients := s.clients ++
            [⟨false, (ok writeString).encode, (ok writeString).encode.length⟩] } := by
    simp only [step, List.getElem?_concat_length]
    rw [if_pos (Nat.le_of_eq (Nat.zero_add _))]
    simp
  refine ⟨_, (run_cons haccept _).trans ((run_cons hread _).trans (run_cons hwrite _)), rfl, _,
    List.getElem?_concat_length, ?_⟩
  rw [Client.received, Http.decode_take (ok_wellFormed writeString), if_neg (Nat.lt_irrefl _)]

/-- Without a thread, nothing is accepted. -/
theorem workers_of_checked {s : State} {request : Bytes} (h : Checked writeString J build s request) :
    0 < s.gateway.workers := by
  obtain ⟨s', hrun, _⟩ := h
  obtain ⟨s₁, hstep, _⟩ := Option.bind_eq_some_iff.mp hrun
  simp only [step] at hstep
  split at hstep
  · next hguard => exact hguard.1
  · cases hstep

end Server

/-- In every state of every run of both servers, whatever their clients do: what a client of the
health check reads is the status `ok`, for any request, and the check goes through exactly as
long as a thread is left. So it does when the TCP server has stopped accepting, and after that
no TCP client ever gets a connection again. -/
theorem blind_run (writeString : Json.Tree → Bytes) (J : JsonCpp) (build : Build) (threads : Nat)
    (events : List Event) :
    HoldsAlong (step writeString J build) (Blind writeString J build) (.start threads) events := by
  refine holdsAlong_of_step (fun s _ _ (h : Inv writeString s) hstep => h.step hstep) (fun s h => ?_)
    ⟨rfl, fun _ hclient => absurd hclient List.not_mem_nil⟩
  refine ⟨fun client hclient => (h.sound client hclient).answered, fun request hpos hle => ?_,
    fun hdeaf more => ?_⟩
  · exact ⟨workers_of_checked, fun hworkers => checked_of_workers h hworkers ⟨hpos, hle⟩⟩
  · refine holdsAlong_of_step (fun s₁ _ s₂ (hs : s₁.gateway.accepting = false ∧
      s₁.gateway.reading.length = s.gateway.reading.length) hstep => ?_) (fun _ hs => hs) ⟨hdeaf, rfl⟩
    obtain ⟨hstill, hlen⟩ := deaf_step hs.1 hstep
    exact ⟨hstill, hlen.trans hs.2⟩

/-- A client that has gone before it is accepted: three threads go on without the TCP server. -/
example : (run (step (fun _ => []) GatewayServer.numberJson .mock) (.start 4)
    [.tcp (.accept (.socket false))]).map
      (fun s => (s.gateway.workers, s.gateway.accepting)) = some (3, false) := rfl

end IMSystem.Gateway.HttpServer
