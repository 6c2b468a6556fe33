import IMSystem.Admin.AdminServer
import IMSystem.Lib.HttpMessage
import IMSystem.Lib.Run

/-!
# What the clients of the admin server get (`admin/src/admin_server.cpp`)

A client sends any bytes, and reads one response. `io_context::run` is called by threads
that catch nothing, so an exception of `HandleRequest` ends the whole process; the
responses that are still on their way may arrive.

Results:
1. `responseData_eq`: `response_data_` is a well-formed HTTP message.
2. `handleRequest_expected`: a read that holds a request is answered as the request.
3. `received_run`: what each client reads, at every moment, and when the process ends.
-/

namespace IMSystem.Admin.HttpConnection

open Lib Json

/-! ## The response -/

/-- The response with a status and a body; the reason is `OK` for every status. -/
def response (statusCode : Nat) (body : Bytes) : Http.Message :=
  Http.framed (str "HTTP/1.1 " ++ toDecimal statusCode ++ str " OK")
    [(str "Content-Type", str "application/json; charset=utf-8"),
      (str "Access-Control-Allow-Origin", str "*"),
      (str "Access-Control-Allow-Methods", str "GET, POST, OPTIONS"),
      (str "Access-Control-Allow-Headers", str "Content-Type, Authorization")]
    [(str "Connection", str "close")] body

theorem responseData_eq (statusCode : Nat) (body : Bytes) :
    responseData statusCode body = (response statusCode body).encode := by
  have hstatus : str " OK\r\n" = str " OK" ++ Http.crlf := by decide
  have htype : str "Content-Type: application/json; charset=utf-8\r\n" =
      Http.headerLine (str "Content-Type", str "application/json; charset=utf-8") ++ Http.crlf := by
    decide
  have horigin : str "Access-Control-Allow-Origin: *\r\n" =
      Http.headerLine (str "Access-Control-Allow-Origin", str "*") ++ Http.crlf := by decide
  have hmethods : str "Access-Control-Allow-Methods: GET, POST, OPTIONS\r\n" =
      Http.headerLine (str "Access-Control-Allow-Methods", str "GET, POST, OPTIONS") ++
        Http.crlf := by decide
  have hheaders : str "Access-Control-Allow-Headers: Content-Type, Authorization\r\n" =
      Http.headerLine (str "Access-Control-Allow-Headers", str "Content-Type, Authorization") ++
        Http.crlf := by decide
  have hlength : Http.headerLine (Http.contentLength, toDecimal body.length) =
      str "Content-Length: " ++ toDecimal body.length := rfl
  have hbreak : str "\r\n" = Http.crlf := by decide
  have hconnection : str "Connection: close\r\n\r\n" =
      Http.headerLine (str "Connection", str "close") ++ Http.crlf ++ Http.crlf := by decide
  simp only [responseData, response, Http.framed, Http.Message.encode, Http.encodeHeaders, hstatus,
    htype, horigin, hmethods, hheaders, hlength, hbreak, hconnection, List.flatMap_cons,
    List.flatMap_nil, List.cons_append, List.append_assoc, List.nil_append]

theorem response_wellFormed (statusCode : Nat) (body : Bytes) :
    (response statusCode body).WellFormed := by
  refine Http.wellFormed_framed ?_ (by decide) (by decide) body
  have hdigits : chr '\r' ∉ toDecimal statusCode := not_mem_toDecimal (by decide) _
  have hfront : chr '\r' ∉ str "HTTP/1.1 " := by decide
  have hback : chr '\r' ∉ str " OK" := by decide
  simp only [List.mem_append, not_or]
  exact ⟨⟨hfront, hdigits⟩, hback⟩

section Serving

variable (J : Api)

def notFound : Bytes := str "\x7b\"code\": 404, \"msg\": \"Not Found\"\x7d"

/-- The response to a request that has arrived as a whole. -/
def expected (r : HttpRequest) : Except Exn Http.Message :=
  if r.method = str "OPTIONS" then .ok (response 204 [])
  else (ApiHandler.handleRoute J r.method r.target r.body).map fun responseBody =>
    if responseBody = [] then response 404 notFound else response 200 responseBody

theorem expected_wellFormed {r : HttpRequest} {m : Http.Message} (h : expected J r = .ok m) :
    m.WellFormed := by
  unfold expected at h
  split at h
  · cases h
    exact response_wellFormed 204 []
  · cases hroute : ApiHandler.handleRoute J r.method r.target r.body with
    | error e =>
      rw [hroute] at h
      cases h
    | ok responseBody =>
      rw [hroute] at h
      cases h
      dsimp only
      split
      · exact response_wellFormed 404 notFound
      · exact response_wellFormed 200 responseBody

/-- A read that holds what is taken of the request is answered as the request. -/
theorem handleRequest_expected {r : HttpRequest} {read rest : Bytes} (h : read ++ rest = r.bytes)
    (hholds : Holds r read) :
    (handleRequest J read []).1 = (expected J r).map Http.Message.encode := by
  unfold expected
  by_cases hmethod : r.method = str "OPTIONS"
  · obtain ⟨⟨more, hmore⟩, hbody⟩ := hholds
    have hline : requestLine read = .ok (r.method, r.target) := by
      have hcut := @requestLine_eq r.method r.target more r.method_blank r.target_blank
      rw [← hmore]
      simpa only [List.append_assoc] using hcut
    have hread : requestBody read = .ok r.body := by
      obtain hempty | hwhole := hbody
      · rw [r.requestBody_front hempty h, hempty]
      · rw [hwhole, r.requestBody_bytes]
    rw [handleRequest_eq J hline hread, if_pos hmethod, if_pos hmethod]
    exact congrArg Except.ok (responseData_eq 204 [])
  · rw [handleRequest_of_holds J h hmethod hholds, if_neg hmethod]
    unfold answer
    cases ApiHandler.handleRoute J r.method r.target r.body with
    | error e => rfl
    | ok responseBody =>
      dsimp only [Except.map]
      split
      · exact congrArg Except.ok (responseData_eq 404 notFound)
      · exact congrArg Except.ok (responseData_eq 200 responseBody)

/-! ## Runs of the server -/

/-- A connection. -/
structure Client where
  /-- What its client sends. -/
  sent : Bytes
  /-- The length of its one read. -/
  got : Option Nat
  /-- `response_data_`. -/
  responseData : Bytes
  /-- The bytes of it that the client has received. -/
  written : Nat

structure State where
  alive : Bool
  clients : List Client

def State.start : State := ⟨true, []⟩

inductive Action where
  | accept (sent : Bytes)
  /-- `async_read_some` completes with so many bytes. -/
  | read (c n : Nat)
  /-- Some more bytes of the response arrive, also after the end of the process. -/
  | write (c k : Nat)

/-- What `HandleRequest` comes to for the read. -/
def Client.handled (client : Client) (n : Nat) : Except Exn Bytes :=
  (handleRequest J (client.sent.take n) []).1

/-- A client has received a part of its response. -/
def Client.received (client : Client) : Bytes := client.responseData.take client.written

def step (s : State) : Action → Option State
  | .accept sent =>
    if s.alive = true then some { s with clients := s.clients ++ [⟨sent, none, [], 0⟩] } else none
  | .read c n =>
    match s.clients[c]? with
    | some client =>
      if s.alive = true ∧ client.got = none ∧ 1 ≤ n ∧ n ≤ 4096 ∧ n ≤ client.sent.length then
        match client.handled J n with
        | .ok responseData =>
          some { s with clients := s.clients.set c { client with got := some n, responseData } }
        -- no thread catches it
        | .error _ => some ⟨false, s.clients.set c { client with got := some n }⟩
      else none
    | none => none
  | .write c k =>
    match s.clients[c]? with
    | some client =>
      if client.written + k ≤ client.responseData.length then
        some { s with clients := s.clients.set c { client with written := client.written + k } }
      else none
    | none => none

/-- What was read of the client has made `HandleRequest` raise. -/
def Client.Raised (client : Client) : Prop :=
  ∃ n e, client.got = some n ∧ client.handled J n = .error e

/-- A client that sends a request gets the response to it, if one read held the request, and
can tell it from any part of it; or it gets none, if the request has made the handler raise. -/
def Client.Served (client : Client) : Prop :=
  ∀ (r : HttpRequest) (n : Nat), client.sent = r.bytes → client.got = some n →
    Holds r (client.sent.take n) →
    match expected J r with
    | .ok m => Http.decode client.received =
        if client.written < m.encode.length then none else some (m, [])
    | .error _ => client.received = []

/-- Every client is served, and the process has ended if and only if the read of some client
has made `HandleRequest` raise. -/
structure Serves (s : State) : Prop where
  served : ∀ client ∈ s.clients, client.Served J
  ended : s.alive = false ↔ ∃ client ∈ s.clients, client.Raised J

/-- What is written is what has been made of the read. -/
structure Client.Sound (client : Client) : Prop where
  written : client.written ≤ client.responseData.length
  unread : client.got = none → client.responseData = []
  answered : ∀ n data, client.got = some n → client.handled J n = .ok data →
    client.responseData = data
  raised : ∀ n e, client.got = some n → client.handled J n = .error e → client.responseData = []

structure Inv (s : State) : Prop where
  sound : ∀ client ∈ s.clients, client.Sound J
  ended : s.alive = false ↔ ∃ client ∈ s.clients, client.Raised J

variable {J}

theorem Client.Sound.served {client : Client} (h : client.Sound J) : client.Served J := by
  intro r n hsent hgot hholds
  have hhandled : client.handled J n = (expected J r).map Http.Message.encode :=
    handleRequest_expected J ((List.take_append_drop n _).trans hsent) hholds
  cases hexpected : expected J r with
  | error e =>
    rw [hexpected] at hhandled
    show client.received = []
    rw [Client.received, h.raised n e hgot hhandled, List.take_nil]
  | ok m =>
    rw [hexpected] at hhandled
    have hdata : client.responseData = m.encode := h.answered n _ hgot hhandled
    show Http.decode client.received = _
    rw [Client.received, hdata]
    exact Http.decode_take (expected_wellFormed J hexpected) client.written

/-- One client is replaced. -/
theorem Inv.set {s : State} (h : Inv J s) {c : Nat} {client client' : Client}
    (hc : s.clients[c]? = some client) (hsound : client'.Sound J) {alive : Bool}
    (hended : (alive = false ↔ s.alive = false ∨ client'.Raised J))
    (hraised : client.Raised J → client'.Raised J) : Inv J ⟨alive, s.clients.set c client'⟩ where
  sound := by
    intro other hother
    obtain hold | rfl := List.mem_or_eq_of_mem_set hother
    · exact h.sound other hold
    · exact hsound
  ended := by
    have hlen : c < s.clients.length := (List.getElem?_eq_some_iff.mp hc).1
    have hself : client' ∈ s.clients.set c client' := List.mem_set hlen client'
    rw [hended, h.ended]
    constructor
    · rintro (⟨other, hother, hraise⟩ | hraise)
      · obtain ⟨i, hi⟩ := List.mem_iff_getElem?.mp hother
        by_cases hic : c = i
        · subst hic
          cases hc.symm.trans hi
          exact ⟨client', hself, hraised hraise⟩
        · exact ⟨other, List.mem_of_getElem? ((List.getElem?_set_ne hic).trans hi), hraise⟩
      · exact ⟨client', hself, hraise⟩
    · rintro ⟨other, hother, hraise⟩
      obtain hold | rfl := List.mem_or_eq_of_mem_set hother
      · exact .inl ⟨other, hold, hraise⟩
      · exact .inr hraise

theorem not_raised_of_unread {client : Client} (hgot : client.got = none) : ¬ client.Raised J := by
  rintro ⟨n, e, hread, _⟩
  cases hgot.symm.trans hread

/-- The one read of a client decides whether it has raised. -/
theorem raised_iff {client : Client} {n : Nat} (hgot : client.got = some n) :
    client.Raised J ↔ ∃ e, client.handled J n = .error e := by
  constructor
  · rintro ⟨n', e, hread, hhandled⟩
    cases hgot.symm.trans hread
    exact ⟨e, hhandled⟩
  · rintro ⟨e, hhandled⟩
    exact ⟨n, e, hgot, hhandled⟩

/-- A client joins. -/
theorem Inv.accept {s : State} (h : Inv J s) (sent : Bytes) :
    Inv J { s with clients := s.clients ++ [⟨sent, none, [], 0⟩] } where
  sound := by
    rw [List.forall_mem_append]
    refine ⟨h.sound, List.forall_mem_singleton.mpr ⟨Nat.le_refl _, fun _ => rfl, ?_, ?_⟩⟩
    · exact fun _ _ hgot => by cases hgot
    · exact fun _ _ hgot => by cases hgot
  ended := by
    refine h.ended.trans ⟨?_, ?_⟩
    · rintro ⟨client, hclient, hraised⟩
      exact ⟨client, List.mem_append_left _ hclient, hraised⟩
    · rintro ⟨client, hclient, hraised⟩
      obtain hold | hnew := List.mem_append.mp hclient
      · exact ⟨client, hold, hraised⟩
      · obtain rfl := List.mem_singleton.mp hnew
        exact absurd hraised (not_raised_of_unread rfl)

/-- The request was read, and handled. -/
theorem Client.Sound.answer {client : Client} (h : client.Sound J) (hgot : client.got = none)
    {n : Nat} {responseData : Bytes} (hhandled : client.handled J n = .ok responseData) :
    Client.Sound J { client with got := some n, responseData } where
  written := by
    have hzero : client.written ≤ 0 := by
      have := h.written
      rwa [h.unread hgot] at this
    exact Nat.le_trans hzero (Nat.zero_le _)
  unread hnone := by cases hnone
  answered := by
    rintro n' data hread hhandled'
    cases hread
    exact Except.ok.inj (hhandled.symm.trans hhandled')
  raised := by
    rintro n' e hread hhandled'
    cases hread
    cases hhandled.symm.trans hhandled'

/-- The request was read, and its handler raised. -/
theorem Client.Sound.raise {client : Client} (h : client.Sound J) (hgot : client.got = none)
    {n : Nat} {e : Exn} (hhandled : client.handled J n = .error e) :
    Client.Sound J { client with got := some n } where
  written := h.written
  unread hnone := by cases hnone
  answered := by
    rintro n' data hread hhandled'
    cases hread
    cases hhandled.symm.trans hhandled'
  raised _ _ _ _ := h.unread hgot

theorem Inv.step {s s' : State} {a : Action} (h : Inv J s) (hstep : step J s a = some s') :
    Inv J s' := by
  cases a with
  | accept sent =>
    simp only [HttpConnection.step] at hstep
    split at hstep
    · cases hstep
      exact h.accept sent
    · cases hstep
  | read c n =>
    simp only [HttpConnection.step] at hstep
    split at hstep
    · next client hc =>
      have hsound := h.sound client (List.mem_of_getElem? hc)
      split at hstep
      · next hguard =>
        have hquiet : ¬ client.Raised J := not_raised_of_unread hguard.2.1
        split at hstep
        · next responseData hhandled =>
          cases hstep
          refine h.set hc (hsound.answer hguard.2.1 hhandled) ?_ fun hraised => absurd hraised hquiet
          refine ⟨.inl, fun hor => hor.resolve_right fun hraised => ?_⟩
          obtain ⟨e, he⟩ := (raised_iff rfl).mp hraised
          cases hhandled.symm.trans he
        · next e hhandled =>
          cases hstep
          refine h.set hc (hsound.raise hguard.2.1 hhandled) ?_ fun hraised => absurd hraised hquiet
          exact ⟨fun _ => .inr ((raised_iff rfl).mpr ⟨e, hhandled⟩), fun _ => rfl⟩
      · cases hstep
    · cases hstep
  | write c k =>
    simp only [HttpConnection.step] at hstep
    split at hstep
    · next client hc =>
      have hsound := h.sound client (List.mem_of_getElem? hc)
      split at hstep
      · next hle =>
        cases hstep
        refine h.set hc ?_ ?_ id
        · exact ⟨hle, hsound.unread, hsound.answered, hsound.raised⟩
        · exact ⟨.inl, fun hor => hor.elim id fun hraised =>
            h.ended.mpr ⟨client, List.mem_of_getElem? hc, hraised⟩⟩
      · cases hstep
    · cases hstep

end Serving

/-- In every state of every run, for clients that send any bytes and any order of reads and
writes: what the client of a request has received, if one read held the request, is its
response and nothing else, and until the last byte has arrived it is no response at all; and
the process has ended exactly if a read has made `HandleRequest` raise. -/
theorem received_run (J : Api) (actions : List Action) :
    HoldsAlong (step J) (Serves J) .start actions := by
  refine holdsAlong_of_step (fun s _ _ (h : Inv J s) hstep => h.step hstep)
    (fun s h => ⟨fun client hclient => (h.sound client hclient).served, h.ended⟩) ⟨?_, ?_⟩
  · exact fun _ hclient => absurd hclient List.not_mem_nil
  · constructor
    · exact fun hended => by cases hended
    · rintro ⟨_, hclient, _⟩
      exact absurd hclient List.not_mem_nil

end IMSystem.Admin.HttpConnection
