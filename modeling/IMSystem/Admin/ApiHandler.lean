import IMSystem.Common.Json

/-!
# The admin API (`admin/src/api_handler.cpp`)

Three of the four handlers parse the body and then convert its fields without looking at
their types; a body that is no JSON gets the code 400. Log lines are left out. A counter
that leaves the `int` counts as raising.

`handleRoute_safe_iff`: a request is handled as promised exactly when its body is refused by
the parser or has fields of the expected types.
-/

namespace IMSystem.Admin

open Lib Json

namespace ApiHandler

section Handlers

variable (J : Api)

/-- A response without data. -/
def response (code : Int) (msg : Bytes) : Tree :=
  .object [(str "code", .int code), (str "msg", .string msg)]

/-- The part that the handlers of a body share: parse it and build `resp`. -/
def respond (body : Bytes) (handle : J.Value → Except Exn Tree) : Except Exn Tree := do
  match ← J.parse body with
  | some req => handle req
  | none => pure (response 400 (str "Invalid JSON format"))

/-- `resp` of `Login`, from the parsed body. -/
def loginRequest (req : J.Value) : Except Exn Tree := do
  let username ← J.get req (str "username") >>= J.asString
  let password ← J.get req (str "password") >>= J.asString
  if username = str "admin" ∧ password = str "admin123" then
    pure (.object [(str "code", .int 0), (str "msg", .string (str "SUCCESS")),
      (str "data", .object [(str "token", .string (str "ADMIN_TOKEN_999999")),
        (str "username", .string (str "Super Admin"))])])
  else pure (response 401 (str "Invalid username or password"))

/-- `Login`. -/
def login (body : Bytes) : Except Exn Bytes := do
  return J.writeString (← respond J body (loginRequest J))

/-- A user in the list of `GetUsers`. -/
def listedUser (id : Int) (username nickname : Bytes) (status : Int) : Tree :=
  .object [(str "id", .int id), (str "username", .string username),
    (str "nickname", .string nickname), (str "status", .int status)]

/-- `resp` of `GetUsers`. -/
def usersResponse : Tree :=
  .object [(str "code", .int 0), (str "msg", .string (str "SUCCESS")),
    (str "data", .object [(str "list", .array [
        listedUser 1001 (str "test_user") (str "Alice") 1,
        listedUser 2002 (str "bad_guy") (str "Spammer") 2]),
      (str "total", .int 2)])]

/-- `GetUsers`. -/
def getUsers : Bytes := J.writeString usersResponse

/-- `resp` of `BanUser`, from the parsed body. -/
def banRequest (req : J.Value) : Except Exn Tree := do
  -- the user id goes into a log line
  let _ ← J.get req (str "user_id") >>= J.asUInt64
  pure (response 0 (str "User banned successfully"))

/-- `BanUser`. -/
def banUser (body : Bytes) : Except Exn Bytes := do
  return J.writeString (← respond J body (banRequest J))

/-- The loop of `UpdateConfig` from `i` on, with `left` elements below `words.size()`. -/
def readWords (words : J.Value) : (left i : Nat) → List Bytes → Except Exn (List Bytes)
  | 0, _, newWords => .ok newWords
  | left + 1, i, newWords => do
    let word ← J.index words i >>= J.asString
    -- `++i`
    if i + 1 = 2 ^ 31 then throw Exn.other
    readWords words left (i + 1) (newWords ++ [word])

/-- `resp` of `UpdateConfig`, from the parsed body. -/
def wordsRequest (req : J.Value) : Except Exn Tree := do
  let words ← J.get req (str "words")
  -- the number of the words goes into a log line
  let _ ← readWords J words (J.size words).toNat 0 []
  pure (response 0 (str "Config updated globally"))

/-- `UpdateConfig`. -/
def updateConfig (body : Bytes) : Except Exn Bytes := do
  return J.writeString (← respond J body (wordsRequest J))

/-- `HandleRoute`. The empty string is for the caller to answer with 404. -/
def handleRoute (method path body : Bytes) : Except Exn Bytes :=
  if method = str "POST" ∧ path = str "/api/admin/login" then login J body
  else if method = str "GET" ∧ path = str "/api/admin/users" then pure (getUsers J)
  else if method = str "POST" ∧ path = str "/api/admin/users/ban" then banUser J body
  else if method = str "POST" ∧ path = str "/api/admin/config/words" then updateConfig J body
  else pure []

/-! ## The promise -/

/-- The known routes. -/
inductive Route where
  | login
  | users
  | ban
  | words
deriving DecidableEq, Repr

def route (method path : Bytes) : Option Route :=
  if method = str "POST" ∧ path = str "/api/admin/login" then some .login
  else if method = str "GET" ∧ path = str "/api/admin/users" then some .users
  else if method = str "POST" ∧ path = str "/api/admin/users/ban" then some .ban
  else if method = str "POST" ∧ path = str "/api/admin/config/words" then some .words
  else none

/-- The response that a route builds. -/
def Route.resp : Route → Bytes → Except Exn Tree
  | .login, body => respond J body (loginRequest J)
  | .users, _ => .ok usersResponse
  | .ban, body => respond J body (banRequest J)
  | .words, body => respond J body (wordsRequest J)

/-- The value is an object whose field `k` has a value as expected. -/
def HasField (root : J.Value) (k : Bytes) (expected : J.Value → Prop) : Prop :=
  J.kind root = .object ∧ ∃ v, J.get root k = .ok v ∧ expected v

/-- An array of strings. -/
def Strings (v : J.Value) : Prop :=
  J.kind v = .array ∧
    ∀ i < (J.size v).toNat, ∃ w, J.index v i = .ok w ∧ J.kind w = .string

/-- The parsed body has the fields of a POST route, with the types expected. -/
def Route.Typed : Route → J.Value → Prop
  | .login, root => HasField J root (str "username") (J.kind · = .string) ∧
      HasField J root (str "password") (J.kind · = .string)
  | .users, _ => True
  | .ban, root => HasField J root (str "user_id") (J.isUInt64 · = true)
  | .words, root => HasField J root (str "words") (Strings J)

/-- The body is a JSON object with fields of the expected types, if the route has a body. -/
def Route.WellTyped (r : Route) (body : Bytes) : Prop :=
  r = .users ∨ ∃ root, J.parse body = .ok (some root) ∧ r.Typed J root

/-- `HandleRoute` returns: for a known route an object with a code, which is 400 when the
body is not as expected, and otherwise the empty string. -/
def HandlesSafely (method path body : Bytes) : Prop :=
  match route method path with
  | none => handleRoute J method path body = .ok []
  | some r => ∃ resp code, r.resp J body = .ok resp ∧
      handleRoute J method path body = .ok (J.writeString resp) ∧
      resp.code = some code ∧ (¬ r.WellTyped J body → code = 400)

/-- The words of the body can be counted in an `int`. -/
def FewWords (root : J.Value) : Prop :=
  ∀ words, J.get root (str "words") = .ok words → (J.size words).toNat < 2 ^ 31

/-- The route is not known or has no body, the body is refused by the parser, or it has
fields of the expected types and not too many words. -/
def Answerable (method path body : Bytes) : Prop :=
  ∀ r, route method path = some r → r = .users ∨ J.parse body = .ok none ∨
    ∃ root, J.parse body = .ok (some root) ∧ r.Typed J root ∧ (r = .words → FewWords J root)

/-! ## Routing -/

theorem return_writeString (r : Except Exn Tree) :
    (do return J.writeString (← r)) = r.map J.writeString := by
  cases r <;> rfl

/-- A known route writes its response, and nothing else is answered. -/
theorem handleRoute_eq (method path body : Bytes) :
    handleRoute J method path body =
      match route method path with
      | none => .ok []
      | some r => (r.resp J body).map J.writeString := by
  unfold handleRoute route
  split
  · exact return_writeString J _
  · split
    · rfl
    · split
      · exact return_writeString J _
      · split
        · exact return_writeString J _
        · rfl

/-! ## The handlers of a body -/

/-- A handler that never answers 400 keeps the promise exactly when the parser refuses the
body or the handler returns from a body of the expected types. -/
theorem respond_safe_iff {handle : J.Value → Except Exn Tree} {Typed Fits : J.Value → Prop}
    (hcode : ∀ req resp, handle req = .ok resp → ∃ code, resp.code = some code ∧ code ≠ 400)
    (hreturns : ∀ req, Typed req → ((∃ resp, handle req = .ok resp) ↔ Fits req)) (body : Bytes) :
    (∃ resp code, respond J body handle = .ok resp ∧ resp.code = some code ∧
      ((¬ ∃ root, J.parse body = .ok (some root) ∧ Typed root) → code = 400)) ↔
    (J.parse body = .ok none ∨
      ∃ root, J.parse body = .ok (some root) ∧ Typed root ∧ Fits root) := by
  unfold respond
  constructor
  · rintro ⟨resp, code, hresp, hresult, hbad⟩
    obtain ⟨parsed, hparse, hresp⟩ := Eff.exists_of_except_bind_ok hresp
    cases parsed with
    | none => exact .inl hparse
    | some req =>
      obtain ⟨code', hcode', hne⟩ := hcode req resp hresp
      rw [hresult] at hcode'
      cases hcode'
      by_cases htyped : ∃ root, J.parse body = .ok (some root) ∧ Typed root
      · obtain ⟨root, hroot, htyped⟩ := htyped
        rw [hparse] at hroot
        cases hroot
        exact .inr ⟨req, hparse, htyped, (hreturns req htyped).mp ⟨resp, hresp⟩⟩
      · exact absurd (hbad htyped) hne
  · rintro (hparse | ⟨root, hparse, htyped, hfits⟩)
    · rw [hparse]
      exact ⟨_, 400, rfl, rfl, fun _ => rfl⟩
    · obtain ⟨resp, hresp⟩ := (hreturns root htyped).mpr hfits
      obtain ⟨code, hcode, _⟩ := hcode root resp hresp
      rw [hparse]
      exact ⟨resp, code, hresp, hcode, fun hbad => absurd ⟨root, rfl, htyped⟩ hbad⟩

theorem loginRequest_code {req : J.Value} {resp : Tree} (h : loginRequest J req = .ok resp) :
    ∃ code, resp.code = some code ∧ code ≠ 400 := by
  unfold loginRequest at h
  obtain ⟨username, _, h⟩ := Eff.exists_of_except_bind_ok h
  obtain ⟨password, _, h⟩ := Eff.exists_of_except_bind_ok h
  split at h
  · cases h
    exact ⟨0, rfl, by decide⟩
  · cases h
    exact ⟨401, rfl, by decide⟩

theorem banRequest_code {req : J.Value} {resp : Tree} (h : banRequest J req = .ok resp) :
    ∃ code, resp.code = some code ∧ code ≠ 400 := by
  obtain ⟨_, _, h⟩ := Eff.exists_of_except_bind_ok h
  cases h
  exact ⟨0, rfl, by decide⟩

theorem wordsRequest_code {req : J.Value} {resp : Tree} (h : wordsRequest J req = .ok resp) :
    ∃ code, resp.code = some code ∧ code ≠ 400 := by
  obtain ⟨_, _, h⟩ := Eff.exists_of_except_bind_ok h
  obtain ⟨_, _, h⟩ := Eff.exists_of_except_bind_ok h
  cases h
  exact ⟨0, rfl, by decide⟩

variable {J}

/-- A field that is a string is read as one. -/
theorem HasField.asString (hJ : J.Documented) {root : J.Value} {k : Bytes}
    (h : HasField J root k (J.kind · = .string)) :
    ∃ s, (J.get root k >>= J.asString) = .ok s := by
  obtain ⟨_, v, hget, hstring⟩ := h
  obtain ⟨s, hs⟩ := hJ.asString_string v hstring
  rw [hget]
  exact ⟨s, hs⟩

theorem loginRequest_returns (hJ : J.Documented) {req : J.Value}
    (h : Route.Typed J .login req) : ∃ resp, loginRequest J req = .ok resp := by
  obtain ⟨username, husername⟩ := h.1.asString hJ
  obtain ⟨password, hpassword⟩ := h.2.asString hJ
  unfold loginRequest
  rw [husername, hpassword]
  simp only [bind, Except.bind]
  split
  · exact ⟨_, rfl⟩
  · exact ⟨_, rfl⟩

theorem banRequest_returns (hJ : J.Documented) {req : J.Value} (h : Route.Typed J .ban req) :
    ∃ resp, banRequest J req = .ok resp := by
  obtain ⟨_, v, hget, hnumber⟩ := h
  obtain ⟨n, hn⟩ := hJ.asUInt64_isUInt64 v hnumber
  unfold banRequest
  rw [hget]
  simp only [bind, Except.bind, hn]
  exact ⟨_, rfl⟩

/-- The loop reads an array of strings as long as the counter stays in the `int`. -/
theorem readWords_returns_iff (hJ : J.Documented) {words : J.Value} (left i : Nat)
    (hstrings : ∀ k < i + left, ∃ w, J.index words k = .ok w ∧ J.kind w = .string)
    (hi : i < 2 ^ 31) (newWords : List Bytes) :
    (∃ ws, readWords J words left i newWords = .ok ws) ↔ i + left < 2 ^ 31 := by
  induction left generalizing i newWords with
  | zero => exact ⟨fun _ => hi, fun _ => ⟨newWords, rfl⟩⟩
  | succ left ih =>
    obtain ⟨w, hindex, hkind⟩ := hstrings i (by omega)
    obtain ⟨word, hword⟩ := hJ.asString_string w hkind
    unfold readWords
    simp only [hindex, bind, Except.bind, hword]
    by_cases hlast : i + 1 = 2 ^ 31
    · rw [if_pos hlast]
      constructor
      · rintro ⟨ws, hws⟩
        cases hws
      · intro hlt
        omega
    · rw [if_neg hlast]
      have hnext := ih (i + 1) (fun k hk => hstrings k (by omega)) (by omega) (newWords ++ [word])
      rw [Nat.add_assoc, Nat.add_comm 1 left] at hnext
      exact hnext

theorem wordsRequest_returns_iff (hJ : J.Documented) {req : J.Value}
    (h : Route.Typed J .words req) : (∃ resp, wordsRequest J req = .ok resp) ↔ FewWords J req := by
  obtain ⟨_, words, hget, _, hstrings⟩ := h
  have hloop := readWords_returns_iff hJ (J.size words).toNat 0
    (fun k hk => hstrings k (by omega)) (by decide) []
  rw [Nat.zero_add] at hloop
  have hfew : FewWords J req ↔ (J.size words).toNat < 2 ^ 31 := by
    unfold FewWords
    rw [hget]
    constructor
    · exact fun hall => hall words rfl
    · intro hlt v hv
      cases hv
      exact hlt
  rw [hfew, ← hloop]
  unfold wordsRequest
  rw [hget]
  simp only [bind, Except.bind]
  cases readWords J words (J.size words).toNat 0 [] with
  | error e =>
    constructor
    · rintro ⟨resp, hresp⟩
      cases hresp
    · rintro ⟨ws, hws⟩
      cases hws
  | ok ws => exact ⟨fun _ => ⟨ws, rfl⟩, fun _ => ⟨_, rfl⟩⟩

end Handlers

/-- The promise of a known route, when its handlers are the shared one. -/
theorem route_safe_iff {J : Api} (hJ : J.Documented) (r : Route) (body : Bytes) :
    (∃ resp code, r.resp J body = .ok resp ∧ resp.code = some code ∧
      (¬ r.WellTyped J body → code = 400)) ↔
    (r = .users ∨ J.parse body = .ok none ∨
      ∃ root, J.parse body = .ok (some root) ∧ r.Typed J root ∧
        (r = .words → FewWords J root)) := by
  have hbody : ∀ r : Route, r ≠ .users → (r.WellTyped J body ↔
      ∃ root, J.parse body = .ok (some root) ∧ r.Typed J root) :=
    fun r hr => or_iff_right hr
  cases r with
  | users =>
    exact iff_of_true ⟨usersResponse, 0, rfl, rfl, fun hbad => absurd (.inl rfl) hbad⟩ (.inl rfl)
  | login =>
    have hreturns : ∀ req, Route.Typed J .login req →
        ((∃ resp, loginRequest J req = .ok resp) ↔ True) :=
      fun _ htyped => iff_true_intro (loginRequest_returns hJ htyped)
    have hsafe := respond_safe_iff J (fun _ _ => loginRequest_code J) hreturns body
    simpa [hbody, Route.resp] using hsafe
  | ban =>
    have hreturns : ∀ req, Route.Typed J .ban req →
        ((∃ resp, banRequest J req = .ok resp) ↔ True) :=
      fun _ htyped => iff_true_intro (banRequest_returns hJ htyped)
    have hsafe := respond_safe_iff J (fun _ _ => banRequest_code J) hreturns body
    simpa [hbody, Route.resp] using hsafe
  | words =>
    have hreturns : ∀ req, Route.Typed J .words req →
        ((∃ resp, wordsRequest J req = .ok resp) ↔ FewWords J req) :=
      fun _ htyped => wordsRequest_returns_iff hJ htyped
    have hsafe := respond_safe_iff J (fun _ _ => wordsRequest_code J) hreturns body
    simpa [hbody, Route.resp] using hsafe

/-- A request is handled as promised exactly when its route has no body, its body is refused
by the parser, or its body has fields of the expected types and countable words. -/
theorem handleRoute_safe_iff (J : Api) (hJ : J.Documented) (method path body : Bytes) :
    HandlesSafely J method path body ↔ Answerable J method path body := by
  unfold HandlesSafely Answerable
  have heq := handleRoute_eq J method path body
  cases hroute : route method path with
  | none =>
    rw [hroute] at heq
    exact iff_of_true heq (fun r hr => by cases hr)
  | some r =>
    rw [hroute] at heq
    dsimp only at heq ⊢
    have hwrites : ∀ resp, r.resp J body = .ok resp →
        handleRoute J method path body = .ok (J.writeString resp) := by
      intro resp hresp
      rw [heq, hresp]
      rfl
    constructor
    · rintro ⟨resp, code, hresp, _, hcode, hbad⟩ r' hr'
      cases hr'
      exact (route_safe_iff hJ r body).mp ⟨resp, code, hresp, hcode, hbad⟩
    · intro hanswerable
      obtain ⟨resp, code, hresp, hcode, hbad⟩ :=
        (route_safe_iff hJ r body).mpr (hanswerable r rfl)
      exact ⟨resp, code, hresp, hwrites resp hresp, hcode, hbad⟩

/-- A body whose root is neither an object nor a null makes every handler of a body raise. -/
theorem resp_raises {J : Api} (hJ : J.Documented) {r : Route} (hr : r ≠ .users) {body : Bytes}
    {root : J.Value} (hparse : J.parse body = .ok (some root)) (hnull : J.kind root ≠ .null)
    (hobject : J.kind root ≠ .object) : ∃ e, r.resp J body = .error e := by
  have hget := fun k => hJ.get_raises root k hnull hobject
  have hrespond : ∀ handle, respond J body handle = handle root := by
    intro handle
    unfold respond
    rw [hparse]
    rfl
  cases r with
  | users => exact absurd rfl hr
  | login =>
    obtain ⟨e, he⟩ := hget (str "username")
    refine ⟨e, (hrespond _).trans ?_⟩
    unfold loginRequest
    rw [he]
    rfl
  | ban =>
    obtain ⟨e, he⟩ := hget (str "user_id")
    refine ⟨e, (hrespond _).trans ?_⟩
    unfold banRequest
    rw [he]
    rfl
  | words =>
    obtain ⟨e, he⟩ := hget (str "words")
    refine ⟨e, (hrespond _).trans ?_⟩
    unfold wordsRequest
    rw [he]
    rfl

/-- A body that bans user 2002. -/
def banBody : Bytes := str "\x7b\"user_id\":2002\x7d"

/-- jsoncpp, with what it reads in this body and in an empty array. -/
def sampleApi : Api :=
  treeApi fun text =>
    if text = banBody then .ok (some (.object [(str "user_id", .int 2002)]))
    else if text = str "[]" then .ok (some (.array []))
    else .ok none

theorem handleRoute_safe_iff_ban :
    HandlesSafely sampleApi (str "POST") (str "/api/admin/users/ban") banBody ∧
    handleRoute sampleApi (str "POST") (str "/api/admin/users/ban") banBody =
      .ok (str "\x7b\"code\":0,\"msg\":\"User banned successfully\"\x7d") := by
  refine ⟨(handleRoute_safe_iff sampleApi (treeApi_documented _) _ _ _).mpr fun r hr => ?_, rfl⟩
  cases hr
  exact .inr (.inr ⟨_, rfl, ⟨rfl, .int 2002, rfl, rfl⟩, fun hwords => by cases hwords⟩)

/-- Logging in with an array raises, and no handler is there to catch it. -/
theorem login_array_raises :
    sampleApi.Documented ∧
    handleRoute sampleApi (str "POST") (str "/api/admin/login") (str "[]") =
      .error Tree.logicError ∧
    ¬ HandlesSafely sampleApi (str "POST") (str "/api/admin/login") (str "[]") := by
  have hraises : handleRoute sampleApi (str "POST") (str "/api/admin/login") (str "[]") =
      .error Tree.logicError := rfl
  refine ⟨treeApi_documented _, hraises, ?_⟩
  rintro ⟨resp, code, _, hreturns, _⟩
  rw [hraises] at hreturns
  cases hreturns

end ApiHandler

end IMSystem.Admin
