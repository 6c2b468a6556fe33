import IMSystem.Lib.Run
import IMSystem.Message.Concurrent

/-!
# The message service as a mailbox

To its clients the message service is a mailbox: it holds one letter for each receiver,
the first one that came, and a pull reads it. Any number of calls run at the same time,
with any faults. The service checks no `msg_id`, so the clients have to see to it that one
stands for one body, `Unambiguous`; it may be saved any number of times.

Results:
1. `run_deliver_keeps`: a letter stays where it is.
2. `delivers_run`: in every run of such clients, the stores make the mailbox's own steps
   only.
3. `truthful_run`: in every state of such a run, the calls that have returned have told
   the truth about the mailbox.
4. `reads_run`: undisturbed, a pull reads the letter of its receiver.
-/

namespace IMSystem.Message.Mailbox

open Lib Retry MessageService Concurrent

/-! ## The mailbox -/

/-- A letter, with the number that the service gave it. -/
structure Letter where
  number : Nat
  body : MsgBody
deriving DecidableEq, Repr

/-- What lies in the slot of each receiver. -/
abbrev Box := UInt64 → Option Letter

/-- The slot is empty, and the letter has a higher number than all before it. -/
def Fits (box : Box) (d : UInt64 × Letter) : Prop :=
  box d.1 = none ∧ ∀ u l, box u = some l → l.number < d.2.number

open Classical in
/-- A letter comes into a slot that it fits. -/
noncomputable def deliver (box : Box) (d : UInt64 × Letter) : Option Box :=
  if Fits box d then some (Function.update box d.1 (some d.2)) else none

/-- What a receiver reads who asks for the letters behind a cursor. -/
def read (box : Box) (userId : UInt64) (beginSeq : Bytes) (limit : Int32) : Option MsgBody :=
  match MsgIndexDao.lastId beginSeq, box userId with
  | .ok last, some letter =>
    if last.toNat < letter.number ∧ 0 < limit then some letter.body else none
  | _, _ => none

theorem deliver_keeps {box box' : Box} {d : UInt64 × Letter} (h : deliver box d = some box')
    {u : UInt64} {l : Letter} (hu : box u = some l) : box' u = some l := by
  unfold deliver at h
  split at h
  · next hfree =>
    cases h
    rw [Function.update_of_ne, hu]
    rintro rfl
    exact absurd (hfree.1.symm.trans hu) nofun
  · cases h

/-- The first letter is the only one. -/
theorem run_deliver_keeps {box box' : Box} {ds : List (UInt64 × Letter)}
    (h : run deliver box ds = some box') {u : UInt64} {l : Letter} (hu : box u = some l) :
    box' u = some l := by
  induction ds generalizing box with
  | nil =>
    cases h
    exact hu
  | cons d ds ih =>
    obtain ⟨box₁, hd, hrest⟩ := Option.bind_eq_some_iff.mp h
    exact ih hrest (deliver_keeps hd hu)

/-! ## The stores as a mailbox -/

/-- The mailbox that the stores stand for. -/
def mailbox (st : Stores) : Box := fun userId =>
  (st.rows.find? fun x => x.2.receiverId == userId).bind fun x =>
    (st.messages.find? fun doc => doc.msgId == x.2.msgId).map fun doc => ⟨x.1, doc⟩

/-- What is called. -/
inductive Request where
  | save (msg : LogicChatMsg)
  | pull (p : Pull)

/-- What a call returns. -/
inductive Answer where
  | saved (newSeqId : Bytes)
  | pulled (messages : List LogicChatMsg)

def Request.prog : Request → Prog Env Stores Answer
  | .save msg => saveMessage msg >>= fun newSeqId => .ret (.saved newSeqId)
  | .pull p => pullOfflineMessages p >>= fun messages => .ret (.pulled messages)

/-- The stores, the messages that were passed to `SaveMessage`, and the calls made so
far. -/
abbrev State := Threads Request Env Stores (List LogicChatMsg) Answer

/-- No step of a call is noted down, only the call itself. -/
def record (_ : Nat) (_ _ : Stores) (called : List LogicChatMsg) : List LogicChatMsg := called

/-- No call yet, and the stores as they are set up. -/
def State.start : State := ⟨.initial, [], []⟩

inductive Action where
  | call (r : Request)
  /-- The `k`-th call makes its next step. -/
  | step (k : Nat) (env : Env)

/-- One step. -/
def step (s : State) : Action → Option State
  | .call (.save msg) =>
    some { s.spawn (.save msg) (Request.save msg).prog with history := s.history ++ [msg] }
  | .call (.pull p) => some (s.spawn (.pull p) (Request.pull p).prog)
  | .step k env => Threads.step record s k env

/-- A message is passed to `SaveMessage` only if its `msg_id` stands for its body: under
this id, no other body was passed before. -/
def Unambiguous (s : State) : Action → Prop
  | .call (.save msg) => ∀ m ∈ s.history, m.msgId = msg.msgId → bodyOf m = bodyOf msg
  | _ => True

instance : ∀ s a, Decidable (Unambiguous s a)
  | s, .call (.save msg) =>
    inferInstanceAs (Decidable (∀ m ∈ s.history, m.msgId = msg.msgId → bodyOf m = bodyOf msg))
  | _, .call (.pull _) => isTrue trivial
  | _, .step _ _ => isTrue trivial

/-- What an answer says of the mailbox. -/
def Truthful (_ : Nat) : Request → Answer → Stores × List LogicChatMsg → Prop
  | .save msg, .saved newSeqId, w => newSeqId ≠ [] → ∃ letter now,
      mailbox w.1 msg.receiverId = some letter ∧ letter.body = bodyOf msg ∧
        newSeqId = MsgIndexDao.seqString now letter.number
  | .pull p, .pulled messages, w =>
    ∀ m ∈ messages, read (mailbox w.1) p.userId p.beginSeq p.limit = some (bodyOf m)
  | _, _, _ => False

/-! ## What every step respects -/

/-- The rows leave `seq_id` empty and have documents, and the documents are those of
the messages that were passed to `SaveMessage`. -/
structure Inv (w : Stores × List LogicChatMsg) : Prop where
  calls : ∀ m ∈ w.2, ∀ m' ∈ w.2, m.msgId = m'.msgId → bodyOf m = bodyOf m'
  slot : ∀ x ∈ w.1.rows, x.2.seqId = []
  docs : ∀ doc ∈ w.1.messages, ∃ msg ∈ w.2, doc = bodyOf msg
  joined : ∀ x ∈ w.1.rows, ∃ doc ∈ w.1.messages, doc.msgId = x.2.msgId

/-- What every step of anybody does. -/
structure Respects (w w' : Stores × List LogicChatMsg) : Prop where
  inv : Inv w → Inv w'
  called : w.2 ⊆ w'.2
  messages : w.1.messages <+: w'.1.messages
  rows : w.1.rows <+: w'.1.rows
  delivers : Inv w → ∃ ds, run deliver (mailbox w.1) ds = some (mailbox w'.1)

instance : IsPreorder (Stores × List LogicChatMsg) Respects where
  refl _ := ⟨id, List.Subset.refl _, List.prefix_refl _, List.prefix_refl _, fun _ => ⟨[], rfl⟩⟩
  trans _ _ _ h h' := {
    inv := h'.inv ∘ h.inv
    called := List.Subset.trans h.called h'.called
    messages := h.messages.trans h'.messages
    rows := h.rows.trans h'.rows
    delivers := fun hinv => by
      obtain ⟨ds, hds⟩ := h.delivers hinv
      obtain ⟨ds', hds'⟩ := h'.delivers (h.inv hinv)
      exact ⟨ds ++ ds', (run_append hds ds').trans hds'⟩ }

section Inv

variable {w w' : Stores × List LogicChatMsg}

/-- A `msg_id` stands for one body. -/
theorem Inv.doc_eq (h : Inv w) {doc doc' : MsgBody} (hdoc : doc ∈ w.1.messages)
    (hdoc' : doc' ∈ w.1.messages) (hid : doc.msgId = doc'.msgId) : doc = doc' := by
  obtain ⟨m, hm, rfl⟩ := h.docs doc hdoc
  obtain ⟨m', hm', rfl⟩ := h.docs doc' hdoc'
  exact h.calls m hm m' hm' hid

/-- The unique key leaves one row to each receiver. -/
theorem Inv.row_eq (h : Inv w) {x y : Nat × IndexRow} (hx : x ∈ w.1.rows) (hy : y ∈ w.1.rows)
    (hreceiver : x.2.receiverId = y.2.receiverId) : x = y :=
  MsgIndexDao.row_eq_of_slots h.slot hx hy hreceiver

/-- The letter of a receiver is its row with the document of the row. -/
theorem Inv.mailbox_eq (h : Inv w) {userId : UInt64} {letter : Letter} :
    mailbox w.1 userId = some letter ↔ letter.body ∈ w.1.messages ∧
      ∃ x ∈ w.1.rows, x.2.receiverId = userId ∧ x.1 = letter.number ∧
        x.2.msgId = letter.body.msgId := by
  unfold mailbox
  constructor
  · intro hbox
    obtain ⟨x, hx, hletter⟩ := Option.bind_eq_some_iff.mp hbox
    obtain ⟨doc, hdoc, rfl⟩ := Option.map_eq_some_iff.mp hletter
    have hid : doc.msgId = x.2.msgId := by simpa using List.find?_some hdoc
    exact ⟨List.mem_of_find?_eq_some hdoc, x, List.mem_of_find?_eq_some hx,
      by simpa using List.find?_some hx, rfl, hid.symm⟩
  · rintro ⟨hdoc, x, hx, rfl, hnumber, hid⟩
    have hrow : w.1.rows.find? (fun y => y.2.receiverId == x.2.receiverId) = some x :=
      Table.find?_eq_some_of_unique hx (beq_self_eq_true _) fun y hy hsame =>
        h.row_eq hy hx (eq_of_beq hsame)
    have hfound : w.1.messages.find? (fun doc => doc.msgId == x.2.msgId) = some letter.body :=
      Table.find?_eq_some_of_unique hdoc (by rw [hid, beq_self_eq_true]) fun doc hdoc' hsame =>
        h.doc_eq hdoc' hdoc ((eq_of_beq hsame).trans hid)
    rw [hrow, Option.bind_some, hfound, Option.map_some, hnumber]

/-- Nobody has a letter without a row. -/
theorem Inv.mailbox_none (h : Inv w) {userId : UInt64}
    (hnone : ∀ x ∈ w.1.rows, x.2.receiverId ≠ userId) : mailbox w.1 userId = none := by
  cases hbox : mailbox w.1 userId with
  | none => rfl
  | some letter =>
    obtain ⟨_, x, hx, hreceiver, _⟩ := h.mailbox_eq.mp hbox
    exact absurd hreceiver (hnone x hx)

end Inv

/-! ## The three kinds of steps -/

section Steps

variable {st st' : Stores} {called : List LogicChatMsg}

/-- A step that leaves rows and documents alone. -/
theorem respects_of_same (hmessages : st'.messages = st.messages) (hrows : st'.rows = st.rows) :
    Respects (st, called) (st', called) where
  inv h := {
    calls := h.calls
    slot := fun x hx => h.slot x (hrows ▸ hx)
    docs := fun doc hdoc => h.docs doc (hmessages ▸ hdoc)
    joined := fun x hx => by
      show ∃ doc ∈ st'.messages, _
      rw [hmessages]
      exact h.joined x (hrows ▸ hx) }
  called := List.Subset.refl _
  messages := by rw [hmessages]
  rows := by rw [hrows]
  delivers _ := ⟨[], by
    show some (mailbox st) = some (mailbox st')
    unfold mailbox
    rw [hmessages, hrows]⟩

/-- A step that writes the body of a message that was passed to `SaveMessage`. -/
theorem respects_body {msg : LogicChatMsg} (hcalled : msg ∈ called)
    (hmessages : st'.messages = st.messages ++ [bodyOf msg]) (hrows : st'.rows = st.rows) :
    Respects (st, called) (st', called) := by
  have hinv : Inv (st, called) → Inv (st', called) := fun h => {
    calls := h.calls
    slot := fun x hx => h.slot x (hrows ▸ hx)
    docs := fun doc hdoc => by
      obtain hold | rfl : doc ∈ st.messages ∨ doc = bodyOf msg := by
        simpa [hmessages] using hdoc
      · exact h.docs doc hold
      · exact ⟨msg, hcalled, rfl⟩
    joined := fun x hx => by
      obtain ⟨doc, hdoc, hid⟩ := h.joined x (hrows ▸ hx)
      exact ⟨doc, by simp [hmessages, hdoc], hid⟩ }
  refine ⟨hinv, List.Subset.refl _, ?_, ?_, fun h => ⟨[], ?_⟩⟩
  · show st.messages <+: st'.messages
    rw [hmessages]
    exact List.prefix_append _ _
  · show st.rows <+: st'.rows
    rw [hrows]
  · -- the rows had found their documents already
    refine congrArg some (funext fun userId => Option.ext fun letter => ?_)
    rw [h.mailbox_eq, (hinv h).mailbox_eq]
    show _ ∧ (∃ x ∈ st.rows, _) ↔ letter.body ∈ st'.messages ∧ ∃ x ∈ st'.rows, _
    rw [hrows, hmessages]
    refine ⟨fun ⟨hdoc, hrow⟩ => ⟨List.mem_append_left _ hdoc, hrow⟩, fun ⟨hdoc, hrow⟩ => ⟨?_, hrow⟩⟩
    obtain ⟨x, hx, _, _, hid⟩ := hrow
    obtain ⟨doc, hold, hdocId⟩ := h.joined x hx
    have hsame : letter.body = doc := by
      refine (hinv h).doc_eq ?_ ?_ (hid.symm.trans hdocId.symm)
      · show letter.body ∈ st'.messages
        rwa [hmessages]
      · show doc ∈ st'.messages
        rw [hmessages]
        exact List.mem_append_left _ hold
    rw [hsame]
    exact hold

/-- A step that writes the index of a message whose body is there. -/
theorem respects_index {msg : LogicChatMsg} {now : Int64}
    (hbody : bodyOf msg ∈ st.messages) (hfree : ¬ st.SlotTaken msg.receiverId)
    (hmessages : st'.messages = st.messages) (hrows : st'.rows = st.rows ++
      [(st.mysql.messageIndex.next, MsgIndexDao.rowOf (indexOf msg) now)]) :
    Respects (st, called) (st', called) := by
  have hmem : ∀ x, x ∈ st'.rows ↔ x ∈ st.rows ∨
      x = (st.mysql.messageIndex.next, MsgIndexDao.rowOf (indexOf msg) now) := by
    intro x
    rw [hrows, List.mem_append, List.mem_singleton]
  have hinv : Inv (st, called) → Inv (st', called) := fun h => {
    calls := h.calls
    slot := fun x hx => by
      obtain hold | rfl := (hmem x).mp hx
      · exact h.slot x hold
      · rfl
    docs := fun doc hdoc => h.docs doc (hmessages ▸ hdoc)
    joined := fun x hx => by
      show ∃ doc ∈ st'.messages, _
      rw [hmessages]
      obtain hold | rfl := (hmem x).mp hx
      · exact h.joined x hold
      · exact ⟨_, hbody, rfl⟩ }
  refine ⟨hinv, List.Subset.refl _, ?_, ?_, fun h =>
    ⟨[(msg.receiverId, ⟨st.mysql.messageIndex.next, bodyOf msg⟩)], ?_⟩⟩
  · show st.messages <+: st'.messages
    rw [hmessages]
  · show st.rows <+: st'.rows
    rw [hrows]
    exact List.prefix_append _ _
  · have hempty : mailbox st msg.receiverId = none := by
      refine h.mailbox_none fun x hx hreceiver => hfree ?_
      refine List.mem_map.mpr ⟨x, hx, ?_⟩
      rw [IndexRow.idxReceiverSeq, hreceiver, h.slot x hx]
    have hhigher : ∀ u l, mailbox st u = some l → l.number < st.mysql.messageIndex.next := by
      intro u l hl
      obtain ⟨_, x, hx, _, hnumber, _⟩ := h.mailbox_eq.mp hl
      exact hnumber ▸ st.mysql.messageIndex.bounded x hx
    have hstep : deliver (mailbox st) (msg.receiverId, ⟨st.mysql.messageIndex.next, bodyOf msg⟩) =
        some (mailbox st') := by
      rw [deliver, if_pos ⟨hempty, hhigher⟩]
      refine congrArg some (funext fun userId => ?_)
      by_cases hu : userId = msg.receiverId
      · subst hu
        rw [Function.update_self]
        refine ((hinv h).mailbox_eq.mpr ⟨?_, _, (hmem _).mpr (.inr rfl), rfl, rfl, rfl⟩).symm
        show bodyOf msg ∈ st'.messages
        rwa [hmessages]
      · rw [Function.update_of_ne hu]
        refine Option.ext fun letter => ?_
        rw [h.mailbox_eq, (hinv h).mailbox_eq]
        show _ ∧ _ ↔ letter.body ∈ st'.messages ∧ ∃ x ∈ st'.rows, _
        rw [hmessages]
        refine and_congr_right fun _ => ⟨?_, ?_⟩
        · rintro ⟨x, hx, hrest⟩
          exact ⟨x, (hmem x).mpr (.inl hx), hrest⟩
        · rintro ⟨x, hx, hreceiver, hrest⟩
          obtain hold | rfl := (hmem x).mp hx
          · exact ⟨x, hold, hreceiver, hrest⟩
          · exact absurd hreceiver.symm hu
    exact (run_cons hstep []).trans rfl

end Steps

/-! ## What the calls ensure -/

section Ensures

variable {k : Nat} {w : Stores × List LogicChatMsg}

/-- A letter that is there stays there, whatever anybody does. -/
theorem Respects.mailbox {w w' : Stores × List LogicChatMsg} (h : Respects w w') (hinv : Inv w)
    {userId : UInt64} {letter : Letter} (hbox : mailbox w.1 userId = some letter) :
    mailbox w'.1 userId = some letter := by
  obtain ⟨ds, hds⟩ := h.delivers hinv
  exact run_deliver_keeps hds hbox

/-- What the writer of a message knows: it was passed to `SaveMessage`. -/
def Called (msg : LogicChatMsg) (w : Stores × List LogicChatMsg) : Prop := Inv w ∧ msg ∈ w.2

theorem Called.stable {msg : LogicChatMsg} {w w' : Stores × List LogicChatMsg} (h : Called msg w)
    (hw : Respects w w') : Called msg w' :=
  ⟨hw.inv h.1, hw.called h.2⟩

/-- And that its body is written. -/
def Written (msg : LogicChatMsg) (w : Stores × List LogicChatMsg) : Prop :=
  Called msg w ∧ bodyOf msg ∈ w.1.messages

theorem Written.stable {msg : LogicChatMsg} {w w' : Stores × List LogicChatMsg} (h : Written msg w)
    (hw : Respects w w') : Written msg w' :=
  ⟨h.1.stable hw, hw.messages.subset h.2⟩

/-- The letter of the message is in the mailbox, under the number of the answer. -/
def Delivered (msg : LogicChatMsg) (newSeqId : Bytes) (w : Stores × List LogicChatMsg) : Prop :=
  Called msg w ∧ (newSeqId ≠ [] → ∃ letter now, mailbox w.1 msg.receiverId = some letter ∧
    letter.body = bodyOf msg ∧ newSeqId = MsgIndexDao.seqString now letter.number)

theorem Delivered.stable {msg : LogicChatMsg} {newSeqId : Bytes}
    {w w' : Stores × List LogicChatMsg} (h : Delivered msg newSeqId w) (hw : Respects w w') :
    Delivered msg newSeqId w' := by
  refine ⟨h.1.stable hw, fun hseq => ?_⟩
  obtain ⟨letter, now, hbox, hrest⟩ := h.2 hseq
  exact ⟨letter, now, hw.mailbox h.1.1 hbox, hrest⟩

theorem ensures_insertBodyAttempt {msg : LogicChatMsg} (h : Called msg w) :
    (insertBodyAttempt (bodyOf msg)).run.Ensures (record k) Respects
      (fun r w => Called msg w ∧ (r = .ok true → Written msg w)) w := by
  refine Prog.Ensures.atomic fun w' hw' env => ?_
  have hcalled := h.stable hw'
  obtain ⟨st, called⟩ := w'
  show Respects (st, called)
      ({ st with messages := (MsgBodyDao.insertAttempt env.body (bodyOf msg) st.messages).2 }, called) ∧
    Prog.Stably Respects (fun w => Called msg w ∧
      ((MsgBodyDao.insertAttempt env.body (bodyOf msg) st.messages).1 = .ok true → Written msg w))
      ({ st with messages := (MsgBodyDao.insertAttempt env.body (bodyOf msg) st.messages).2 }, called)
  have hadded : Respects (st, called)
      ({ st with messages := st.messages ++ [bodyOf msg] }, called) :=
    respects_body hcalled.2 rfl rfl
  obtain ⟨_, heq⟩ | ⟨_, e, heq⟩ | ⟨_, e, heq⟩ :=
    MsgBodyDao.insertAttempt_eq env.body (bodyOf msg) st.messages
  · rw [heq]
    have hwritten : Written msg ({ st with messages := st.messages ++ [bodyOf msg] }, called) :=
      ⟨hcalled.stable hadded, List.mem_append_right _ (List.mem_singleton_self _)⟩
    exact ⟨hadded, fun w'' hw'' => ⟨hwritten.1.stable hw'', fun _ => hwritten.stable hw''⟩⟩
  · rw [heq]
    exact ⟨refl _, fun w'' hw'' => ⟨hcalled.stable hw'', nofun⟩⟩
  · rw [heq]
    exact ⟨hadded, fun w'' hw'' => ⟨(hcalled.stable hadded).stable hw'', nofun⟩⟩

theorem ensures_insertBody {msg : LogicChatMsg} (h : Called msg w) :
    (insertBody (bodyOf msg)).Ensures (record k) Respects
      (fun ok w => Called msg w ∧ (ok = true → Written msg w)) w := by
  unfold insertBody
  rw [Steps.executeWithRetry_eq]
  refine (Prog.Ensures.retry (fun w hw => ensures_insertBodyAttempt hw) (fun _ _ h => h.1) h
    _).bind fun r w hr => ?_
  cases r with
  | ok ok => exact Prog.Stably.mono hr fun w h => ⟨h.1, fun hok => h.2 (congrArg Except.ok hok)⟩
  | error e => exact Prog.Stably.mono hr fun w h => ⟨h.1, nofun⟩

theorem ensures_insertIndexAttempt {msg : LogicChatMsg} (h : Written msg w) :
    (insertIndexAttempt (indexOf msg)).run.Ensures (record k) Respects
      (fun r w => Written msg w ∧ ∀ newSeqId, r = .ok newSeqId → Delivered msg newSeqId w) w := by
  refine Prog.Ensures.atomic fun w' hw' env => ?_
  have hwritten := h.stable hw'
  obtain ⟨st, called⟩ := w'
  show Respects (st, called)
      ({ st with mysql := (MsgIndexDao.insertAttempt env.index (indexOf msg) st.mysql).2 }, called) ∧
    Prog.Stably Respects (fun w => Written msg w ∧ ∀ newSeqId,
      (MsgIndexDao.insertAttempt env.index (indexOf msg) st.mysql).1 = .ok newSeqId →
        Delivered msg newSeqId w)
      ({ st with mysql := (MsgIndexDao.insertAttempt env.index (indexOf msg) st.mysql).2 }, called)
  by_cases hslot : st.mysql.messageIndex.Taken ((indexOf msg).receiverId, (indexOf msg).seqId)
  · obtain ⟨e, mysql, heq, hrows⟩ :=
      MsgIndexDao.insertAttempt_taken (a := env.index) hslot
    rw [heq]
    have hsame : Respects (st, called) ({ st with mysql := mysql }, called) :=
      respects_of_same rfl hrows
    exact ⟨hsame, fun w'' hw'' => ⟨(hwritten.stable hsame).stable hw'', nofun⟩⟩
  · obtain ⟨_, e, heq⟩ | ⟨mysql, hadded, ⟨_, heq⟩ | ⟨_, e, heq⟩⟩ :=
      MsgIndexDao.insertAttempt_free (a := env.index) hslot
    · rw [heq]
      exact ⟨refl _, fun w'' hw'' => ⟨hwritten.stable hw'', nofun⟩⟩
    all_goals
      rw [heq]
      have hindex : Respects (st, called) ({ st with mysql := mysql }, called) :=
        respects_index hwritten.2 hslot rfl (congrArg Table.rows hadded)
      refine ⟨hindex, fun w'' hw'' => ⟨(hwritten.stable hindex).stable hw'', ?_⟩⟩
    · intro newSeqId hseq
      obtain rfl := Except.ok.inj hseq
      refine Delivered.stable ⟨hwritten.1.stable hindex, fun _ => ?_⟩ hw''
      refine ⟨⟨st.mysql.messageIndex.next, bodyOf msg⟩, env.index.nowMs, ?_, rfl, rfl⟩
      refine (hindex.inv hwritten.1.1).mailbox_eq.mpr ⟨hwritten.2,
        (st.mysql.messageIndex.next, MsgIndexDao.rowOf (indexOf msg) env.index.nowMs), ?_, rfl, rfl, rfl⟩
      show _ ∈ mysql.messageIndex.rows
      rw [hadded]
      exact List.mem_append_right _ (List.mem_singleton_self _)
    · nofun

theorem ensures_insertIndex {msg : LogicChatMsg} (h : Written msg w) :
    (insertIndex (indexOf msg)).Ensures (record k) Respects (Delivered msg) w := by
  unfold insertIndex
  rw [Steps.executeWithRetry_eq]
  refine (Prog.Ensures.retry (fun w hw => ensures_insertIndexAttempt hw) (fun _ _ h => h.1) h
    _).bind fun r w hr => ?_
  cases r with
  | ok newSeqId => exact Prog.Stably.mono hr fun w h => h.2 newSeqId rfl
  | error e => exact Prog.Stably.mono hr fun w h => ⟨h.1.1, fun hne => absurd rfl hne⟩

/-- A message that is answered with a sequence number lies in the mailbox. -/
theorem ensures_saveMessage {msg : LogicChatMsg} (h : Called msg w) :
    (Request.save msg).prog.Ensures (record k) Respects (Truthful k (.save msg)) w := by
  have hnothing : ∀ {w : Stores × List LogicChatMsg}, Called msg w →
      (Prog.ret [] : Prog Env Stores Bytes).Ensures (record k) Respects (Delivered msg) w :=
    fun hw w' hw' => ⟨hw.stable hw', fun hne => absurd rfl hne⟩
  have hsave : (saveMessage msg).Ensures (record k) Respects (Delivered msg) w := by
    refine (ensures_insertBody h).bind fun ok w hok => ?_
    cases ok with
    | false => exact hnothing hok.now.1
    | true =>
      refine (ensures_insertIndex (hok.now.2 rfl)).bind fun newSeqId w hseq => ?_
      split
      · exact hnothing hseq.now.1
      · exact hseq
  exact hsave.bind fun newSeqId w hseq => Prog.Stably.mono hseq fun w h => h.2

/-- The ids are those of rows of the receiver behind the cursor. -/
def Fetched (p : Pull) (msgIds : List Bytes) (w : Stores × List LogicChatMsg) : Prop :=
  ∀ id ∈ msgIds, ∃ x ∈ w.1.rows, x.2.receiverId = p.userId ∧ x.2.msgId = id ∧
    ∃ last, MsgIndexDao.lastId p.beginSeq = .ok last ∧ last.toNat < x.1 ∧ 0 < p.limit

/-- The documents are those under the ids. -/
def Gotten (msgIds : List Bytes) (bodies : List MsgBody) (w : Stores × List LogicChatMsg) : Prop :=
  ∀ doc ∈ bodies, doc ∈ w.1.messages ∧ doc.msgId ∈ msgIds

theorem Fetched.stable {p : Pull} {msgIds : List Bytes} {w w' : Stores × List LogicChatMsg}
    (h : Fetched p msgIds w) (hw : Respects w w') : Fetched p msgIds w' := by
  intro id hid
  obtain ⟨x, hx, hrest⟩ := h id hid
  exact ⟨x, hw.rows.subset hx, hrest⟩

theorem Gotten.stable {msgIds : List Bytes} {bodies : List MsgBody}
    {w w' : Stores × List LogicChatMsg} (h : Gotten msgIds bodies w) (hw : Respects w w') :
    Gotten msgIds bodies w' :=
  fun doc hdoc => ⟨hw.messages.subset (h doc hdoc).1, (h doc hdoc).2⟩

/-- Only a positive limit leaves a row. -/
theorem pos_of_mem_offlineRows {t : IndexTable} {userId last : UInt64} {limit : Int32}
    {x : Nat × IndexRow} (h : x ∈ MsgIndexDao.offlineRows t userId last limit) : 0 < limit := by
  rw [Int32.lt_iff_toInt_lt]
  show 0 < limit.toInt
  by_contra hle
  have hzero : limit.toInt.toNat = 0 := Int.toNat_of_nonpos (Int.not_lt.mp hle)
  rw [MsgIndexDao.offlineRows, Table.select, hzero, List.take_zero] at h
  cases h

theorem mem_offlineRows {t : IndexTable} {userId last : UInt64} {limit : Int32}
    {x : Nat × IndexRow} (h : x ∈ MsgIndexDao.offlineRows t userId last limit) :
    x ∈ t.rows ∧ x.2.receiverId = userId ∧ last.toNat < x.1 := by
  obtain ⟨hx, hreceiver, hlast⟩ := Table.mem_select h
  exact ⟨hx, eq_of_beq hreceiver, hlast⟩

/-- An attempt to fetch ids adds those of rows behind a cursor that it can read. -/
theorem fetched_fetchAttempt {p : Pull} {msgIds : List Bytes} (a : ReadAttempt)
    (h : Fetched p msgIds w) : Fetched p (MsgIndexDao.fetchAttempt a w.1.mysql.messageIndex p.userId
      p.beginSeq p.limit msgIds).2 w := by
  obtain ⟨connected, breaksAfter⟩ := a
  cases connected with
  | false => exact h
  | true =>
    cases hlast : MsgIndexDao.lastId p.beginSeq with
    | error e => simpa [MsgIndexDao.fetchAttempt, hlast] using h
    | ok last =>
      by_cases hneg : p.limit < 0
      · simpa [MsgIndexDao.fetchAttempt, hlast, hneg] using h
      · have hfound : ∀ added, added <+: (MsgIndexDao.offlineRows w.1.mysql.messageIndex p.userId last
            p.limit).map (fun x => x.2.msgId) → Fetched p (msgIds ++ added) w := by
          intro added hadded id hid
          obtain hold | hnew := List.mem_append.mp hid
          · exact h id hold
          · obtain ⟨x, hx, rfl⟩ := List.mem_map.mp (hadded.subset hnew)
            obtain ⟨hrow, hreceiver, hbehind⟩ := mem_offlineRows hx
            exact ⟨x, hrow, hreceiver, rfl, last, hlast, hbehind, pos_of_mem_offlineRows hx⟩
        cases breaksAfter with
        | none =>
          simpa [MsgIndexDao.fetchAttempt, hlast, hneg] using hfound _ (List.prefix_refl _)
        | some n =>
          simpa [MsgIndexDao.fetchAttempt, hlast, hneg, Eff.bind_apply] using
            hfound _ (List.take_prefix n _)

theorem gotten_batchGetAttempt {msgIds : List Bytes} {bodies : List MsgBody} (a : ReadAttempt)
    (h : Gotten msgIds bodies w) :
    Gotten msgIds (MsgBodyDao.batchGetAttempt a w.1.messages msgIds bodies).2 w := by
  obtain ⟨added, happend, hadded⟩ := MsgBodyDao.batchGetAttempt_appends a w.1.messages msgIds bodies
  rw [happend]
  intro doc hdoc
  obtain hold | hnew := List.mem_append.mp hdoc
  · exact h doc hold
  · simpa using hadded.subset hnew

theorem ensures_fetchOfflineMsgIds (p : Pull) (w : Stores × List LogicChatMsg) :
    (fetchOfflineMsgIds p).Ensures (record k) Respects (Fetched p) w :=
  (Prog.Ensures.retryOn (P := Fetched p) (fun _ => rfl) (fun _ _ _ h hw => h.stable hw)
    (fun env _ _ h => fetched_fetchAttempt env.read h) (fun _ hid => by cases hid) 3).bind
    fun _ _ h => h

theorem ensures_batchGet (msgIds : List Bytes) (w : Stores × List LogicChatMsg) :
    (batchGet msgIds).Ensures (record k) Respects (Gotten msgIds) w := by
  unfold batchGet
  split
  · exact fun _ _ _ hdoc => by cases hdoc
  · exact (Prog.Ensures.retryOn (P := Gotten msgIds) (fun _ => rfl)
      (fun _ _ _ h hw => h.stable hw) (fun env _ _ h => gotten_batchGetAttempt env.read h)
      (fun _ hdoc => by cases hdoc) 3).bind fun _ _ h => h

/-- The documents under fetched ids are the letter of the receiver. -/
theorem read_of_gotten {p : Pull} {msgIds : List Bytes} {bodies : List MsgBody} (hinv : Inv w)
    (hfetched : Fetched p msgIds w) (hgotten : Gotten msgIds bodies w) {doc : MsgBody}
    (hdoc : doc ∈ bodies) : read (mailbox w.1) p.userId p.beginSeq p.limit = some doc := by
  obtain ⟨hmem, hid⟩ := hgotten doc hdoc
  obtain ⟨x, hx, hreceiver, hrow, last, hlast, hbehind, hlimit⟩ := hfetched _ hid
  have hbox : mailbox w.1 p.userId = some ⟨x.1, doc⟩ :=
    hinv.mailbox_eq.mpr ⟨hmem, x, hx, hreceiver, rfl, hrow⟩
  rw [read, hlast, hbox]
  exact if_pos ⟨hbehind, hlimit⟩

/-- What is pulled is the letter of the receiver. -/
theorem ensures_pullOfflineMessages (p : Pull) (h : Inv w) :
    (Request.pull p).prog.Ensures (record k) Respects (Truthful k (.pull p)) w := by
  have hinv : ∀ {w w'}, Inv w → Respects w w' → Inv w' := fun h hw => hw.inv h
  have hpull : (pullOfflineMessages p).Ensures (record k) Respects
      (fun messages w => Truthful k (.pull p) (.pulled messages) w) w := by
    refine ((ensures_fetchOfflineMsgIds p w).frame fun w' hw' => hw'.inv h).bind
      fun msgIds w hids => ?_
    split
    · exact fun _ _ _ hm => by cases hm
    · refine ((ensures_batchGet msgIds w).frame hids).bind fun bodies w hbodies => ?_
      refine Prog.Stably.mono hbodies fun w hw m hm => ?_
      obtain ⟨hgotten, hfetched, hinv⟩ := hw
      obtain ⟨i, hi, rfl⟩ := List.mem_mapIdx.mp hm
      exact read_of_gotten hinv hfetched hgotten (List.getElem_mem hi)
  exact hpull.bind fun messages w h => h

end Ensures

/-! ## What holds in every run -/

structure RunInv (s : State) : Prop where
  inv : Inv s.world
  calls : Threads.Good record Respects Truthful s

theorem runInv_start : RunInv .start where
  inv := {
    calls := fun m hm => by cases hm
    slot := fun x hx => by cases hx
    docs := fun doc hdoc => by cases hdoc
    joined := fun x hx => by cases hx }
  calls := fun k i p hk => by cases hk

/-- A message may be passed to `SaveMessage` if its `msg_id` stands for its body. -/
theorem respects_call {st : Stores} {called : List LogicChatMsg} {msg : LogicChatMsg}
    (h : ∀ m ∈ called, m.msgId = msg.msgId → bodyOf m = bodyOf msg) :
    Respects (st, called) (st, called ++ [msg]) where
  inv hinv := {
    calls := by
      intro m hm m' hm' hid
      rw [List.mem_append, List.mem_singleton] at hm hm'
      obtain hm | rfl := hm
      · obtain hm' | rfl := hm'
        · exact hinv.calls m hm m' hm' hid
        · exact h m hm hid
      · obtain hm' | rfl := hm'
        · exact (h m' hm' hid.symm).symm
        · rfl
    slot := hinv.slot
    docs := fun doc hdoc => by
      obtain ⟨m, hm, rfl⟩ := hinv.docs doc hdoc
      exact ⟨m, List.mem_append_left _ hm, rfl⟩
    joined := hinv.joined }
  called := List.subset_append_left _ _
  messages := List.prefix_refl _
  rows := List.prefix_refl _
  delivers _ := ⟨[], rfl⟩

/-- Each step respects what the others rely on, and keeps what the calls ensure. -/
theorem RunInv.step {s s' : State} (a : Action) (h : RunInv s) (hcalled : Unambiguous s a)
    (hstep : step s a = some s') : Respects s.world s'.world ∧ RunInv s' := by
  cases a with
  | call r =>
    cases r with
    | save msg =>
      cases hstep
      have hrespects : Respects (s.shared, s.history) (s.shared, s.history ++ [msg]) :=
        respects_call hcalled
      have hinv := hrespects.inv h.inv
      refine ⟨hrespects, hinv, ?_⟩
      have hgood : Threads.Good record Respects Truthful { s with history := s.history ++ [msg] } :=
        h.calls.interfere hrespects rfl
      exact hgood.spawn (ensures_saveMessage
        ⟨hinv, List.mem_append_right _ (List.mem_singleton_self _)⟩)
    | pull p =>
      cases hstep
      exact ⟨refl _, h.inv, h.calls.spawn (ensures_pullOfflineMessages p h.inv)⟩
  | step k env =>
    obtain ⟨hrespects, hgood⟩ := h.calls.step hstep
    exact ⟨hrespects, hrespects.inv h.inv, hgood⟩

/-- One greeting to several receivers. -/
def greeting (receiver : UInt64) : LogicChatMsg where
  msgId := str "m1"
  senderId := 1
  receiverId := receiver
  sessionType := 1
  msgType := 1
  content := str "hi"
  sendTime := 0
  serverTime := 0
  seqId := []

/-- It is saved for users 2 and 3 at the same time, and then user 3 pulls. -/
def greetings : List Action :=
  [.call (.save (greeting 2)), .call (.save (greeting 3))] ++
    [0, 1, 1, 0].map (Action.step · (.ofRead .clean)) ++
  [.call (.pull ⟨3, [], 10, fun _ => ⟨0, 0, 0, 0⟩⟩)] ++
    [2, 2].map (Action.step · (.ofRead .clean))

theorem greetings_unambiguous : StepsMeet step Unambiguous .start greetings := by decide +kernel

/-- In every state of such a run, whatever fails and in whatever order the calls make
their steps: a `SaveMessage` that has returned a sequence number has put its message into
the mailbox, under this number, and a `PullOfflineMessages` that has returned has read
the letter of its receiver, or nothing. -/
theorem truthful_run (as : List Action) (has : StepsMeet step Unambiguous .start as) :
    HoldsAlong step (fun s => ∀ k r answer, s.Returned k r answer → Truthful k r answer s.world)
      .start as := by
  refine holdsAlong_of_inv (fun s a s' (h : RunInv s) hcalled hstep => (h.step a hcalled hstep).2)
    (fun s h k r answer hk => ?_) runInv_start has
  exact h.calls.returned hk

theorem truthful_run_greetings :
    HoldsAlong step (fun s => ∀ k r answer, s.Returned k r answer → Truthful k r answer s.world)
      .start greetings ∧
    (run step .start greetings).isSome = true :=
  ⟨truthful_run greetings greetings_unambiguous, by decide +kernel⟩

/-- In every state of such a run, a pull that nothing disturbs reads what the mailbox
holds for its receiver behind its cursor, and it reads it whenever there is something. -/
theorem reads_run (as : List Action) (has : StepsMeet step Unambiguous .start as) :
    HoldsAlong step (fun s => ∀ (p : Pull) (b : MsgBody),
      read (mailbox s.shared) p.userId p.beginSeq p.limit = some b ↔
        b ∈ (MessageService.pullOfflineMessages (.clean p.fresh) s.shared p.userId p.beginSeq
          p.limit).map bodyOf) .start as := by
  refine holdsAlong_of_inv (fun s a s' (h : RunInv s) hcalled hstep => (h.step a hcalled hstep).2)
    (fun s h p b => ⟨fun hread => ?_, fun hmem => ?_⟩) runInv_start has
  · unfold read at hread
    split at hread
    · next last letter hlast hbox =>
      split at hread
      · next hbehind =>
        cases hread
        obtain ⟨hdoc, x, hx, hreceiver, hnumber, hid⟩ := h.inv.mailbox_eq.mp hbox
        have hrow := MsgIndexDao.mem_offlineRows_of_slots h.inv.slot hx (hnumber ▸ hbehind.1) hbehind.2
        rw [hreceiver] at hrow
        obtain ⟨i, hi⟩ := mem_pullOfflineMessages_clean p.fresh hlast
          (fun hneg => absurd hbehind.2 (Int32.not_lt.mpr (Int32.le_of_lt hneg))) hrow hdoc hid.symm
        exact List.mem_map.mpr ⟨_, hi, rfl⟩
      · cases hread
    · cases hread
  · obtain ⟨m, hm, rfl⟩ := List.mem_map.mp hmem
    have halone : (Request.pull p).prog.Yields s.shared (.pulled (MessageService.pullOfflineMessages
        (.clean p.fresh) s.shared p.userId p.beginSeq p.limit)) s.shared :=
      Prog.yields_bind.mpr ⟨_, _, yields_pullOfflineMessages.mpr
        ⟨rfl, fun _ => .clean, fun _ => .clean, rfl⟩, .ret⟩
    obtain ⟨_, htrue⟩ := (ensures_pullOfflineMessages (k := 0) p h.inv).of_yields halone
    exact htrue m hm

theorem reads_run_greetings : ∃ s, run step .start greetings = some s ∧
    read (mailbox s.shared) 3 [] 10 = some (bodyOf (greeting 3)) := by
  have hpulled : (run step .start greetings).map (fun s =>
      (MessageService.pullOfflineMessages (.clean fun _ => ⟨0, 0, 0, 0⟩) s.shared 3 [] 10).map
        bodyOf) = some [bodyOf (greeting 3), bodyOf (greeting 3)] := by decide +kernel
  obtain ⟨s, hs, hbodies⟩ := Option.map_eq_some_iff.mp hpulled
  have hreads := holdsAlong_last (reads_run greetings greetings_unambiguous) hs
  refine ⟨s, hs, (hreads ⟨3, [], 10, fun _ => ⟨0, 0, 0, 0⟩⟩ _).mpr ?_⟩
  rw [hbodies]
  exact List.mem_cons_self

end IMSystem.Message.Mailbox
