import IMSystem.Admin.ApiHandler
import IMSystem.Lib.Splitting

/-!
# The admin server (`admin/src/admin_server.cpp`)

A connection reads once, up to 4096 bytes, and takes what it has got for the whole request.
The log line is left out. TCP does not keep requests together, so the read may hold a part
of one only.

Results:
1. `handleRoute_calls`: whatever the reads are, `HandleRoute` is called at most once, and
   rightly if the first read is complete and the method is not `OPTIONS`.
2. `worker_ends`: an exception of a handler leaves `io_context::run`, where nothing catches it.
-/

namespace IMSystem.Admin

open Lib Json

namespace HttpConnection

/-! ## Handling one read -/

/-- A call of `HandleRoute`. -/
structure RouteCall where
  method : Bytes
  path : Bytes
  body : Bytes
deriving DecidableEq, Repr

def crlf : Bytes := str "\r\n"

/-- The end of the header. -/
def headEnd : Bytes := str "\r\n\r\n"

/-- The method and the path, as `HandleRequest` cuts them out. -/
def requestLine (requestData : Bytes) : Except OutOfRange (Bytes × Bytes) :=
  match find requestData [chr ' '] 0 with
  | none => .ok ([], [])
  | some methodEnd => do
    let method ← substr requestData 0 methodEnd
    match find requestData [chr ' '] (methodEnd + 1) with
    | none => pure (method, [])
    | some pathEnd => do
      let path ← substr requestData (methodEnd + 1) (pathEnd - methodEnd - 1)
      pure (method, path)

/-- The body, as `HandleRequest` cuts it out. Without a count, `substr` takes what is left. -/
def requestBody (requestData : Bytes) : Except OutOfRange Bytes :=
  match find requestData headEnd 0 with
  | none => .ok []
  | some bodyPos => substr requestData (bodyPos + 4) requestData.length

/-- `std::out_of_range`. -/
def outOfRange (_ : OutOfRange) : Exn := .std (str "basic_string::substr")

/-- `response_data_`. -/
def responseData (statusCode : Nat) (responseBody : Bytes) : Bytes :=
  str "HTTP/1.1 " ++ toDecimal statusCode ++ str " OK\r\n" ++
    str "Content-Type: application/json; charset=utf-8\r\n" ++
    str "Access-Control-Allow-Origin: *\r\n" ++
    str "Access-Control-Allow-Methods: GET, POST, OPTIONS\r\n" ++
    str "Access-Control-Allow-Headers: Content-Type, Authorization\r\n" ++
    str "Content-Length: " ++ toDecimal responseBody.length ++ str "\r\n" ++
    str "Connection: close\r\n\r\n" ++ responseBody

section Connection

variable (J : Api)

/-- `HandleRequest`, with the calls it makes and what it writes. -/
def handleRequest (requestData : Bytes) : Call (List RouteCall) Bytes := do
  let (method, path) ← Eff.ofExcept ((requestLine requestData).mapError outOfRange)
  let body ← Eff.ofExcept ((requestBody requestData).mapError outOfRange)
  if method = str "OPTIONS" then return responseData 204 []
  Eff.modify (· ++ [⟨method, path, body⟩])
  let responseBody ← Eff.ofExcept (ApiHandler.handleRoute J method path body)
  if responseBody = [] then
    return responseData 404 (str "\x7b\"code\": 404, \"msg\": \"Not Found\"\x7d")
  return responseData 200 responseBody

/-- `Start`: one `async_read_some`, and nothing after it. The reads are those that TCP would
deliver; `none`: the read has failed, and nothing is written. -/
def start : List Bytes → Call (List RouteCall) (Option Bytes)
  | [] => pure none
  | read :: _ => do return some (← handleRequest J read)

/-- The calls of `HandleRoute` on a connection that delivers these reads. -/
def routeCalls (reads : List Bytes) : List RouteCall := (start J reads []).2

end Connection

/-! ## Requests and reads -/

/-- A request on the wire: neither method nor target has a blank, no line has a carriage
return, and no header line is empty. How the body is announced does not matter. -/
structure HttpRequest where
  method : Bytes
  target : Bytes
  version : Bytes
  headers : List Bytes
  body : Bytes
  method_blank : chr ' ' ∉ method
  target_blank : chr ' ' ∉ target
  line_return : chr '\r' ∉ method ++ [chr ' '] ++ (target ++ [chr ' '] ++ version)
  headers_return : ∀ h ∈ headers, h ≠ [] ∧ chr '\r' ∉ h

namespace HttpRequest

/-- The request line, and each header line behind a line break. -/
def head (r : HttpRequest) : Bytes :=
  r.method ++ [chr ' '] ++ (r.target ++ [chr ' '] ++ r.version) ++ r.headers.flatMap (crlf ++ ·)

def bytes (r : HttpRequest) : Bytes := r.head ++ headEnd ++ r.body

end HttpRequest

/-- A way in which TCP may deliver the bytes: reads of 1 to 4096 bytes. -/
structure Cut (bytes : Bytes) (reads : List Bytes) : Prop where
  flatten : reads.flatten = bytes
  size : ∀ read ∈ reads, 1 ≤ read.length ∧ read.length ≤ 4096

/-- The read has the method and the target, up to the blanks behind them, and the body. -/
def Holds (r : HttpRequest) (read : Bytes) : Prop :=
  r.method ++ [chr ' '] ++ (r.target ++ [chr ' ']) <+: read ∧ (r.body = [] ∨ read = r.bytes)

/-! ## What is cut out -/

theorem requestLine_method {method rest : Bytes} (hmethod : chr ' ' ∉ method)
    {line : Bytes × Bytes} (h : requestLine (method ++ [chr ' '] ++ rest) = .ok line) :
    line.1 = method := by
  have hfind : find (method ++ [chr ' '] ++ rest) [chr ' '] 0 = some method.length :=
    (find_zero _ _).trans (first_singleton hmethod).search_eq
  have hsubstr : substr (method ++ [chr ' '] ++ rest) 0 method.length = .ok method := by
    have := substr_append [] method ([chr ' '] ++ rest)
    simpa only [List.nil_append, List.append_assoc, List.length_nil] using this
  unfold requestLine at h
  rw [hfind] at h
  dsimp only at h
  rw [hsubstr] at h
  obtain ⟨_, hmethod', h⟩ := Eff.exists_of_except_bind_ok h
  cases hmethod'
  split at h
  · cases h
    rfl
  · obtain ⟨path, _, h⟩ := Eff.exists_of_except_bind_ok h
    cases h
    rfl

/-- The two first blanks end the method and the target. -/
theorem requestLine_eq {method target rest : Bytes} (hmethod : chr ' ' ∉ method)
    (htarget : chr ' ' ∉ target) :
    requestLine (method ++ [chr ' '] ++ (target ++ [chr ' '] ++ rest)) = .ok (method, target) := by
  have hfind : find (method ++ [chr ' '] ++ (target ++ [chr ' '] ++ rest)) [chr ' '] 0 =
      some method.length :=
    (find_zero _ _).trans (first_singleton hmethod).search_eq
  have hlen : (method ++ [chr ' ']).length = method.length + 1 := List.length_append
  have hfind' : find (method ++ [chr ' '] ++ (target ++ [chr ' '] ++ rest)) [chr ' ']
      (method.length + 1) = some (method.length + 1 + target.length) := by
    have := (first_singleton (b := rest) htarget).find_eq (method ++ [chr ' '])
    rwa [hlen] at this
  have hsubstr : substr (method ++ [chr ' '] ++ (target ++ [chr ' '] ++ rest)) 0 method.length =
      .ok method := by
    have := substr_append [] method ([chr ' '] ++ (target ++ [chr ' '] ++ rest))
    simpa only [List.nil_append, List.append_assoc, List.length_nil] using this
  have hcount : method.length + 1 + target.length - method.length - 1 = target.length := by omega
  have hsubstr' : substr (method ++ [chr ' '] ++ (target ++ [chr ' '] ++ rest))
      (method.length + 1) target.length = .ok target := by
    have := substr_append (method ++ [chr ' ']) target ([chr ' '] ++ rest)
    rwa [hlen, ← List.append_assoc target] at this
  unfold requestLine
  rw [hfind]
  dsimp only
  rw [hsubstr, hfind']
  simp only [bind, Except.bind, hcount, hsubstr']
  rfl

/-- A line break that is not the second of two in a row does not end the header. -/
theorem search_headEnd_line {l : Bytes} (hne : l ≠ []) (hreturn : chr '\r' ∉ l) (s : Bytes) :
    search headEnd (crlf ++ (l ++ s)) = (search headEnd (l ++ s)).map (2 + ·) := by
  obtain ⟨c, l, rfl⟩ := List.exists_cons_of_ne_nil hne
  have hc : c ≠ chr '\r' := fun h => hreturn (h ▸ List.mem_cons_self)
  have hfirst : ¬ headEnd <+: chr '\r' :: (chr '\n' :: (c :: l ++ s)) := by
    rintro ⟨t, same⟩
    have := congrArg (·[2]?) same
    exact hc (Option.some.inj this).symm
  have hskip : search headEnd (chr '\r' :: (chr '\n' :: (c :: l ++ s))) =
      (search headEnd (chr '\n' :: (c :: l ++ s))).map (· + 1) := if_neg hfirst
  have hbreak : chr '\n' ≠ chr '\r' := by decide
  have hskip' : search headEnd (chr '\n' :: (c :: l ++ s)) =
      (search headEnd (c :: l ++ s)).map (· + 1) := search_cons_of_ne hbreak _ _
  have hcrlf : crlf ++ (c :: l ++ s) = chr '\r' :: (chr '\n' :: (c :: l ++ s)) := rfl
  rw [hcrlf, hskip, hskip', Option.map_map]
  congr 1
  funext i
  show i + 1 + 1 = 2 + i
  omega

/-- Without a carriage return, no line break. -/
theorem search_headEnd_pass {l : Bytes} (hreturn : chr '\r' ∉ l) (s : Bytes) :
    search headEnd (l ++ s) = (search headEnd s).map (l.length + ·) :=
  search_append_of_not_mem hreturn _ s

/-- The first two line breaks in a row are those behind the last line. -/
theorem search_headEnd {line : Bytes} (hline : chr '\r' ∉ line) {headers : List Bytes}
    (hheaders : ∀ h ∈ headers, h ≠ [] ∧ chr '\r' ∉ h) (body : Bytes) :
    search headEnd (line ++ headers.flatMap (crlf ++ ·) ++ headEnd ++ body) =
      some (line ++ headers.flatMap (crlf ++ ·)).length := by
  induction headers generalizing line with
  | nil =>
    have hfirst : First headEnd [] body := fun _ _ _ => Nat.zero_le _
    have hhere : search headEnd (headEnd ++ body) = some 0 := hfirst.search_eq
    rw [List.flatMap_nil, List.append_nil, List.append_assoc, search_headEnd_pass hline, hhere]
    rfl
  | cons h headers ih =>
    obtain ⟨hne, hreturn⟩ := hheaders h List.mem_cons_self
    have hrest := ih hreturn fun h' hh' => hheaders h' (List.mem_cons_of_mem _ hh')
    have hcrlf : crlf.length = 2 := rfl
    rw [List.flatMap_cons]
    simp only [List.append_assoc] at hrest ⊢
    rw [search_headEnd_pass hline, search_headEnd_line hne hreturn, hrest]
    simp only [Option.map_some, List.length_append, hcrlf]

namespace HttpRequest

theorem find_headEnd (r : HttpRequest) : find r.bytes headEnd 0 = some r.head.length :=
  (find_zero _ _).trans (search_headEnd r.line_return r.headers_return r.body)

/-- The end of the header is found where it is. -/
theorem first_headEnd (r : HttpRequest) : First headEnd r.head r.body :=
  first_of_search (search_headEnd r.line_return r.headers_return r.body)

theorem requestBody_bytes (r : HttpRequest) : requestBody r.bytes = .ok r.body := by
  have hfour : headEnd.length = 4 := rfl
  have hrest : substr (r.head ++ headEnd ++ r.body) (r.head ++ headEnd).length r.bytes.length =
      .ok r.body := by
    refine substr_rest _ _ ?_
    simp only [bytes, List.length_append]
    omega
  unfold requestBody
  rw [r.find_headEnd]
  dsimp only
  rwa [List.length_append, hfour] at hrest

/-- A read that ends before the request does gives no body, if there is none. -/
theorem requestBody_front (r : HttpRequest) (hbody : r.body = []) {read rest : Bytes}
    (h : read ++ rest = r.bytes) : requestBody read = .ok [] := by
  unfold requestBody
  rw [find_zero]
  cases hs : search headEnd read with
  | none => rfl
  | some i =>
    obtain ⟨a, b, rfl, _, rfl⟩ := search_sound hs
    -- The occurrence in the read is one in the request, so the request ends with it.
    have hfirst := r.first_headEnd a (b ++ rest) (by simpa [bytes] using h)
    have hlen := congrArg List.length h
    have hfour : headEnd.length = 4 := rfl
    simp only [bytes, List.length_append, hbody, List.length_nil] at hlen
    have hb : b = [] := List.length_eq_zero_iff.mp (by omega)
    subst hb
    have hrest : substr (a ++ headEnd ++ []) (a ++ headEnd).length (a ++ headEnd ++ []).length =
        .ok [] := substr_rest _ _ (Nat.zero_le _)
    rwa [List.length_append, hfour] at hrest

end HttpRequest

/-! ## The calls made -/

section Calls

variable (J : Api)

/-- What is written for a call of `HandleRoute`. -/
def answer (call : RouteCall) : Except Exn Bytes :=
  (ApiHandler.handleRoute J call.method call.path call.body).map fun responseBody =>
    if responseBody = [] then responseData 404 (str "\x7b\"code\": 404, \"msg\": \"Not Found\"\x7d")
    else responseData 200 responseBody

/-- One read makes one call, unless it is a preflight. -/
theorem handleRequest_eq {requestData method path body : Bytes}
    (hline : requestLine requestData = .ok (method, path))
    (hbody : requestBody requestData = .ok body) :
    handleRequest J requestData [] =
      if method = str "OPTIONS" then (.ok (responseData 204 []), [])
      else (answer J ⟨method, path, body⟩, [⟨method, path, body⟩]) := by
  unfold handleRequest answer
  rw [hline, hbody]
  simp only [Except.mapError, Eff.ofExcept_ok_bind]
  split
  · rfl
  · simp only [Eff.bind_apply, Eff.modify_apply, Eff.ofExcept_apply, List.nil_append]
    cases ApiHandler.handleRoute J method path body with
    | error e => rfl
    | ok responseBody =>
      dsimp only [Except.map]
      split
      · rfl
      · rfl

/-- When `substr` raises, no call is made. -/
theorem handleRequest_raises {requestData : Bytes}
    (h : (∃ e, requestLine requestData = .error e) ∨ ∃ e, requestBody requestData = .error e) :
    (handleRequest J requestData []).2 = [] := by
  unfold handleRequest
  cases hline : requestLine requestData with
  | error e => rfl
  | ok line =>
    cases hbody : requestBody requestData with
    | error e => rfl
    | ok body =>
      rw [hline, hbody] at h
      rcases h with ⟨e, he⟩ | ⟨e, he⟩
      · cases he
      · cases he

theorem handleRequest_calls_le (requestData : Bytes) :
    (handleRequest J requestData []).2.length ≤ 1 := by
  cases hline : requestLine requestData with
  | error e =>
    rw [handleRequest_raises J (.inl ⟨e, hline⟩)]
    exact Nat.zero_le _
  | ok line =>
    cases hbody : requestBody requestData with
    | error e =>
      rw [handleRequest_raises J (.inr ⟨e, hbody⟩)]
      exact Nat.zero_le _
    | ok body =>
      rw [handleRequest_eq J hline hbody]
      split
      · exact Nat.zero_le _
      · exact Nat.le_refl _

theorem start_cons (read : Bytes) (rest : List Bytes) :
    start J (read :: rest) = do return some (← handleRequest J read) := rfl

/-- Only the first read matters. -/
theorem routeCalls_cons (read : Bytes) (rest : List Bytes) :
    routeCalls J (read :: rest) = (handleRequest J read []).2 := by
  unfold routeCalls
  rw [start_cons, Eff.bind_apply]
  obtain ⟨r, calls⟩ := handleRequest J read []
  cases r with
  | ok response => rfl
  | error e => rfl

/-- A read that holds what it takes of the request is handled as the request. -/
theorem handleRequest_of_holds {r : HttpRequest} {read rest : Bytes} (h : read ++ rest = r.bytes)
    (hmethod : r.method ≠ str "OPTIONS") (hholds : Holds r read) :
    handleRequest J read [] =
      (answer J ⟨r.method, r.target, r.body⟩, [⟨r.method, r.target, r.body⟩]) := by
  obtain ⟨⟨more, hmore⟩, hbody⟩ := hholds
  have hline : requestLine read = .ok (r.method, r.target) := by
    have hcut := @requestLine_eq r.method r.target more r.method_blank r.target_blank
    rw [← hmore]
    simpa only [List.append_assoc] using hcut
  have hbody' : requestBody read = .ok r.body := by
    rcases hbody with hempty | hwhole
    · rw [r.requestBody_front hempty h, hempty]
    · rw [hwhole, r.requestBody_bytes]
  rw [handleRequest_eq J hline hbody', if_neg hmethod]

/-- A preflight makes no call. -/
theorem handleRequest_options {r : HttpRequest} (hmethod : r.method = str "OPTIONS")
    {read : Bytes} (hread : r.method ++ [chr ' '] <+: read) :
    (handleRequest J read []).2 = [] := by
  obtain ⟨more, rfl⟩ := hread
  cases hline : requestLine (r.method ++ [chr ' '] ++ more) with
  | error e => exact handleRequest_raises J (.inl ⟨e, hline⟩)
  | ok line =>
    cases hbody : requestBody (r.method ++ [chr ' '] ++ more) with
    | error e => exact handleRequest_raises J (.inr ⟨e, hbody⟩)
    | ok body =>
      have hline' : line.1 = str "OPTIONS" :=
        (requestLine_method r.method_blank hline).trans hmethod
      rw [handleRequest_eq J hline hbody, if_pos hline']

/-- A request is never empty, so there is a first read. -/
theorem Cut.first {r : HttpRequest} {reads : List Bytes} (h : Cut r.bytes reads) :
    ∃ read rest, reads = read :: rest ∧ read ++ rest.flatten = r.bytes := by
  cases reads with
  | nil =>
    have hempty := h.flatten
    simp [HttpRequest.bytes, HttpRequest.head] at hempty
  | cons read rest => exact ⟨read, rest, rfl, h.flatten⟩

end Calls

/-- However a request is cut into reads, `HandleRoute` is called at most once. It is called
once, with the method, the target and the body of the request, if the method is not
`OPTIONS` and the first read holds them; for a preflight it is not called. -/
theorem handleRoute_calls (J : Api) {r : HttpRequest} {reads : List Bytes}
    (h : Cut r.bytes reads) :
    (routeCalls J reads).length ≤ 1 ∧ ∃ read rest, reads = read :: rest ∧
      (r.method ≠ str "OPTIONS" → Holds r read →
        routeCalls J reads = [⟨r.method, r.target, r.body⟩]) ∧
      (r.method = str "OPTIONS" → r.method ++ [chr ' '] <+: read → routeCalls J reads = []) := by
  obtain ⟨read, rest, rfl, hbytes⟩ := h.first
  rw [routeCalls_cons]
  refine ⟨handleRequest_calls_le J read, read, rest, rfl, ?_,
    fun hmethod => handleRequest_options J hmethod⟩
  intro hmethod hholds
  rw [handleRequest_of_holds J hbytes hmethod hholds]

/-- An exception of the handler leaves the read handler, and with it `io_context::run` and
the thread. -/
theorem worker_ends (J : Api) {r : HttpRequest} {read : Bytes} {rest : List Bytes}
    (h : Cut r.bytes (read :: rest)) (hmethod : r.method ≠ str "OPTIONS") (hholds : Holds r read)
    {e : Exn} (hraises : ApiHandler.handleRoute J r.method r.target r.body = .error e) :
    start J (read :: rest) [] = (.error e, [⟨r.method, r.target, r.body⟩]) := by
  rw [start_cons, Eff.bind_apply, handleRequest_of_holds J h.flatten hmethod hholds]
  unfold answer
  rw [hraises]
  rfl

/-! ## A preflight and a request in two reads -/

def preflight : HttpRequest where
  method := str "OPTIONS"
  target := str "/api/admin/login"
  version := str "HTTP/1.1"
  headers := [str "Origin: x"]
  body := []
  method_blank := by decide
  target_blank := by decide
  line_return := by decide
  headers_return := by decide

def banUser : HttpRequest where
  method := str "POST"
  target := str "/api/admin/users/ban"
  version := str "HTTP/1.1"
  headers := [str "Content-Length: 16"]
  body := ApiHandler.banBody
  method_blank := by decide
  target_blank := by decide
  line_return := by decide
  headers_return := by decide

theorem handleRoute_calls_banUser :
    Cut banUser.bytes [banUser.bytes] ∧
      routeCalls ApiHandler.sampleApi [banUser.bytes] =
        [⟨str "POST", str "/api/admin/users/ban", ApiHandler.banBody⟩] := by
  have hcut : Cut banUser.bytes [banUser.bytes] := ⟨by simp, by decide⟩
  obtain ⟨_, read, rest, hreads, hcalls, _⟩ := handleRoute_calls ApiHandler.sampleApi hcut
  cases hreads
  exact ⟨hcut, hcalls (by decide) ⟨by decide, .inr rfl⟩⟩

/-- A preflight makes no call, and a body that comes in the second read is not there. -/
theorem preflight_not_routed :
    (Cut preflight.bytes [preflight.bytes] ∧
      routeCalls ApiHandler.sampleApi [preflight.bytes] = []) ∧
    (Cut banUser.bytes [banUser.head ++ headEnd, banUser.body] ∧
      routeCalls ApiHandler.sampleApi [banUser.head ++ headEnd, banUser.body] =
        [⟨banUser.method, banUser.target, []⟩]) ∧
    ¬ ∀ (r : HttpRequest) (reads : List Bytes), Cut r.bytes reads →
      routeCalls ApiHandler.sampleApi reads = [⟨r.method, r.target, r.body⟩] := by
  have hcut : Cut preflight.bytes [preflight.bytes] := ⟨by simp, by decide⟩
  have hnone : routeCalls ApiHandler.sampleApi [preflight.bytes] = [] := by decide
  refine ⟨⟨hcut, hnone⟩, ⟨⟨by simp [HttpRequest.bytes], by decide⟩, by decide⟩, ?_⟩
  intro hclaim
  have := hclaim preflight _ hcut
  rw [hnone] at this
  cases this

end HttpConnection

end IMSystem.Admin
