import IMSystem.Lib.Bytes

/-!
# HTTP messages on a connection

A message is a start line, header lines and a body; the header `Content-Length` announces
the length of the body. `decode` is the receiver's side: it takes one message off the bytes
that have arrived, and leaves the rest. It waits, as `none`, as long as the message is not
complete. The names of headers are compared as they stand.

Results:
1. `wellFormed_framed`: a message is well formed if its fixed lines are.
2. `decode_encode`: a well-formed message is read back, whatever follows it.
3. `decode_take`: no bytes in front of its end are taken for it.
-/

namespace IMSystem.Lib.Http

def crlf : Bytes := [chr '\r', chr '\n']

def contentLength : Bytes := str "Content-Length"

structure Message where
  startLine : Bytes
  headers : List (Bytes × Bytes)
  body : Bytes
deriving DecidableEq, Repr

/-! ## The bytes of a message -/

def headerLine (h : Bytes × Bytes) : Bytes := h.1 ++ chr ':' :: chr ' ' :: h.2

/-- The header lines and the empty line behind them. -/
def encodeHeaders (headers : List (Bytes × Bytes)) : Bytes :=
  headers.flatMap (fun h => headerLine h ++ crlf) ++ crlf

def Message.encode (m : Message) : Bytes :=
  m.startLine ++ crlf ++ encodeHeaders m.headers ++ m.body

/-- No line break in a line, no colon in a name, no blank in front of a value, and the length
of the body in the first header that says it. -/
structure Message.WellFormed (m : Message) : Prop where
  startLine : chr '\r' ∉ m.startLine
  names : ∀ h ∈ m.headers, chr '\r' ∉ h.1 ∧ chr ':' ∉ h.1
  values : ∀ h ∈ m.headers, chr '\r' ∉ h.2 ∧ h.2.head? ≠ some (chr ' ')
  length : m.headers.find? (·.1 = contentLength) = some (contentLength, toDecimal m.body.length)

/-- A header that does not depend on the body. -/
def Plain (h : Bytes × Bytes) : Prop :=
  (chr '\r' ∉ h.1 ∧ chr ':' ∉ h.1) ∧ (chr '\r' ∉ h.2 ∧ h.2.head? ≠ some (chr ' ')) ∧
    h.1 ≠ contentLength

instance : DecidablePred Plain := fun h =>
  inferInstanceAs (Decidable ((chr '\r' ∉ h.1 ∧ chr ':' ∉ h.1) ∧ _))

/-- The length of the body between plain headers. -/
def framed (startLine : Bytes) (front back : List (Bytes × Bytes)) (body : Bytes) : Message where
  startLine := startLine
  headers := front ++ (contentLength, toDecimal body.length) :: back
  body := body

theorem wellFormed_framed {startLine : Bytes} {front back : List (Bytes × Bytes)}
    (hline : chr '\r' ∉ startLine) (hfront : ∀ h ∈ front, Plain h) (hback : ∀ h ∈ back, Plain h)
    (body : Bytes) : (framed startLine front back body).WellFormed where
  startLine := hline
  names := by
    simp only [framed, List.forall_mem_append, List.forall_mem_cons]
    exact ⟨fun h hh => (hfront h hh).1, by decide, fun h hh => (hback h hh).1⟩
  values := by
    have hreturn : chr '\r' ∉ toDecimal body.length := not_mem_toDecimal (by decide) _
    have hblank : (toDecimal body.length).head? ≠ some (chr ' ') := fun hhead =>
      not_mem_toDecimal (c := chr ' ') (by decide) _ (List.mem_of_head? hhead)
    simp only [framed, List.forall_mem_append, List.forall_mem_cons]
    exact ⟨fun h hh => (hfront h hh).2.1, ⟨hreturn, hblank⟩, fun h hh => (hback h hh).2.1⟩
  length := by
    have hnone : front.find? (·.1 = contentLength) = none :=
      List.find?_eq_none.mpr fun h hh heq => (hfront h hh).2.2 (of_decide_eq_true heq)
    simp only [framed, List.find?_append, hnone, Option.none_or, List.find?_cons, decide_true]

/-! ## Reading a message -/

/-- One line and what follows its end. -/
def readLine : Bytes → Option (Bytes × Bytes)
  | [] => none
  | c :: s =>
    if c = chr '\r' ∧ s.head? = some (chr '\n') then some ([], s.tail)
    else (readLine s).map fun lr => (c :: lr.1, lr.2)

/-- A name in front of the first colon, and a value without the blanks in front of it. -/
def readHeader (line : Bytes) : Option (Bytes × Bytes) :=
  if chr ':' ∈ line then
    some (line.takeWhile (· != chr ':'),
      (line.dropWhile (· != chr ':')).tail.dropWhile (· == chr ' '))
  else none

/-- The headers up to the empty line, `fuel` lines at most, and what follows. -/
def readHeaders : Nat → Bytes → Option (List (Bytes × Bytes) × Bytes)
  | 0, _ => none
  | fuel + 1, s => do
    let (line, rest) ← readLine s
    if line = [] then return ([], rest)
    let h ← readHeader line
    let (headers, rest) ← readHeaders fuel rest
    return (h :: headers, rest)

/-- The announced length. -/
def bodyLength (headers : List (Bytes × Bytes)) : Option Nat := do
  let (_, value) ← headers.find? (·.1 = contentLength)
  if value ≠ [] ∧ value.all isdigit = true then return ofDecimal value else none

/-- The first message of a stream, and the rest of the stream. -/
def decode (s : Bytes) : Option (Message × Bytes) := do
  let (startLine, rest) ← readLine s
  let (headers, rest) ← readHeaders rest.length rest
  let length ← bodyLength headers
  if rest.length < length then none
  else return (⟨startLine, headers, rest.take length⟩, rest.drop length)

/-! ## Lines and headers -/

theorem readLine_append {line : Bytes} (hline : chr '\r' ∉ line) (rest : Bytes) :
    readLine (line ++ crlf ++ rest) = some (line, rest) := by
  induction line with
  | nil => rfl
  | cons c line ih =>
    rw [List.mem_cons, not_or] at hline
    rw [List.cons_append, List.cons_append, readLine, if_neg fun h => hline.1 h.1.symm, ih hline.2]
    rfl

theorem headerLine_ne_nil (h : Bytes × Bytes) : headerLine h ≠ [] :=
  List.append_ne_nil_of_right_ne_nil _ (List.cons_ne_nil _ _)

theorem not_mem_headerLine {h : Bytes × Bytes} (hname : chr '\r' ∉ h.1) (hvalue : chr '\r' ∉ h.2) :
    chr '\r' ∉ headerLine h := by
  have hcolon : chr '\r' ≠ chr ':' := by decide
  have hblank : chr '\r' ≠ chr ' ' := by decide
  simp only [headerLine, List.mem_append, List.mem_cons, not_or]
  exact ⟨hname, hcolon, hblank, hvalue⟩

theorem readHeader_headerLine {h : Bytes × Bytes} (hname : chr ':' ∉ h.1)
    (hvalue : h.2.head? ≠ some (chr ' ')) : readHeader (headerLine h) = some h := by
  have hkeep : ∀ c ∈ h.1, (c != chr ':') = true := fun c hc =>
    bne_iff_ne.mpr fun heq => hname (heq ▸ hc)
  have hstop : h.2.dropWhile (· == chr ' ') = h.2 := by
    cases hcase : h.2 with
    | nil => rfl
    | cons c value =>
      rw [hcase] at hvalue
      have hc : (c == chr ' ') = false := beq_eq_false_iff_ne.mpr fun heq => hvalue (heq ▸ rfl)
      rw [List.dropWhile_cons_of_neg (by rw [hc]; decide)]
  have hmem : chr ':' ∈ headerLine h := List.mem_append_right _ List.mem_cons_self
  rw [readHeader, if_pos hmem, headerLine, List.takeWhile_append_of_pos hkeep,
    List.dropWhile_append_of_pos hkeep]
  simp [hstop]

theorem readHeaders_encode {headers : List (Bytes × Bytes)}
    (hnames : ∀ h ∈ headers, chr '\r' ∉ h.1 ∧ chr ':' ∉ h.1)
    (hvalues : ∀ h ∈ headers, chr '\r' ∉ h.2 ∧ h.2.head? ≠ some (chr ' ')) {fuel : Nat}
    (hfuel : headers.length < fuel) (rest : Bytes) :
    readHeaders fuel (encodeHeaders headers ++ rest) = some (headers, rest) := by
  induction headers generalizing fuel with
  | nil =>
    obtain ⟨fuel, rfl⟩ := Nat.exists_eq_succ_of_ne_zero (Nat.ne_of_gt hfuel)
    have hline : readLine (crlf ++ rest) = some ([], rest) := readLine_append List.not_mem_nil rest
    simp only [readHeaders, encodeHeaders, List.flatMap_nil, List.nil_append, hline]
    rfl
  | cons h headers ih =>
    obtain ⟨fuel, rfl⟩ := Nat.exists_eq_succ_of_ne_zero (Nat.ne_zero_of_lt hfuel)
    obtain ⟨hname, hcolon⟩ := hnames h List.mem_cons_self
    obtain ⟨hvalue, hblank⟩ := hvalues h List.mem_cons_self
    have hrest := ih (fun h' hh' => hnames h' (List.mem_cons_of_mem _ hh'))
      (fun h' hh' => hvalues h' (List.mem_cons_of_mem _ hh')) (Nat.lt_of_succ_lt_succ hfuel)
    have hsplit : encodeHeaders (h :: headers) ++ rest =
        headerLine h ++ crlf ++ (encodeHeaders headers ++ rest) := by
      simp [encodeHeaders]
    rw [hsplit, readHeaders, readLine_append (not_mem_headerLine hname hvalue)]
    simp only [bind, Option.bind, if_neg (headerLine_ne_nil h),
      readHeader_headerLine hcolon hblank, hrest]
    rfl

theorem length_le_encodeHeaders (headers : List (Bytes × Bytes)) :
    headers.length < (encodeHeaders headers).length := by
  have hcrlf : crlf.length = 2 := rfl
  induction headers with
  | nil => exact Nat.zero_lt_two
  | cons h headers ih =>
    simp only [encodeHeaders, List.flatMap_cons, List.length_append, List.length_cons] at ih ⊢
    omega

theorem bodyLength_eq {m : Message} (h : m.WellFormed) : bodyLength m.headers = some m.body.length := by
  have hdigits : (toDecimal m.body.length).all isdigit = true :=
    List.all_eq_true.mpr fun _ hc => isdigit_of_mem_toDecimal hc
  rw [bodyLength, h.length]
  simp only [bind, Option.bind, if_pos (And.intro (toDecimal_ne_nil _) hdigits), ofDecimal_toDecimal]
  rfl

/-! ## The round trip -/

/-- A well-formed message is read back from a stream that begins with it. -/
theorem decode_encode {m : Message} (h : m.WellFormed) (rest : Bytes) :
    decode (m.encode ++ rest) = some (m, rest) := by
  have hsplit : m.encode ++ rest =
      m.startLine ++ crlf ++ (encodeHeaders m.headers ++ (m.body ++ rest)) := by
    simp [Message.encode]
  have hfuel : m.headers.length < (encodeHeaders m.headers ++ (m.body ++ rest)).length := by
    rw [List.length_append]
    exact Nat.lt_add_right _ (length_le_encodeHeaders m.headers)
  have hlong : ¬ (m.body ++ rest).length < m.body.length := by
    rw [List.length_append]
    exact Nat.not_lt.mpr (Nat.le_add_right _ _)
  rw [hsplit, decode, readLine_append h.startLine]
  simp only [bind, Option.bind, readHeaders_encode h.names h.values hfuel, bodyLength_eq h,
    if_neg hlong, List.take_left, List.drop_left]
  rfl

/-! ## A stream that is cut off -/

theorem readLine_more {s line rest : Bytes} (h : readLine s = some (line, rest)) (more : Bytes) :
    readLine (s ++ more) = some (line, rest ++ more) := by
  induction s generalizing line with
  | nil => cases h
  | cons c s ih =>
    rw [readLine] at h
    split at h
    · next hend =>
      cases h
      obtain ⟨d, s, rfl⟩ := List.exists_cons_of_ne_nil (l := s) (by
        rintro rfl
        cases hend.2)
      exact if_pos hend
    · next hend =>
      obtain ⟨⟨line', rest'⟩, hread, heq⟩ := Option.map_eq_some_iff.mp h
      cases heq
      have hend' : ¬ (c = chr '\r' ∧ (s ++ more).head? = some (chr '\n')) := by
        rintro ⟨hc, hhead⟩
        cases s with
        | nil => cases hread
        | cons d s => exact hend ⟨hc, hhead⟩
      rw [List.cons_append, readLine, if_neg hend', ih hread]
      rfl

theorem readHeaders_more {fuel fuel' : Nat} {s rest : Bytes} {headers : List (Bytes × Bytes)}
    (h : readHeaders fuel s = some (headers, rest)) (hfuel : fuel ≤ fuel') (more : Bytes) :
    readHeaders fuel' (s ++ more) = some (headers, rest ++ more) := by
  induction fuel generalizing fuel' s headers with
  | zero => cases h
  | succ fuel ih =>
    obtain ⟨fuel', rfl⟩ := Nat.exists_eq_succ_of_ne_zero (Nat.ne_zero_of_lt hfuel)
    obtain ⟨⟨line, rest'⟩, hline, h⟩ := Option.bind_eq_some_iff.mp h
    rw [readHeaders, readLine_more hline more]
    dsimp only [bind, Option.bind] at h ⊢
    split
    · next hempty =>
      rw [if_pos hempty] at h
      cases h
      rfl
    · next hempty =>
      rw [if_neg hempty] at h
      obtain ⟨header, hheader, h⟩ := Option.bind_eq_some_iff.mp h
      obtain ⟨⟨headers', rest''⟩, hheaders, h⟩ := Option.bind_eq_some_iff.mp h
      cases h
      simp only [hheader, ih hheaders (Nat.le_of_succ_le_succ hfuel)]
      rfl

/-- What has been read does not change when more arrives. -/
theorem decode_more {s rest : Bytes} {m : Message} (h : decode s = some (m, rest)) (more : Bytes) :
    decode (s ++ more) = some (m, rest ++ more) := by
  obtain ⟨⟨startLine, rest₁⟩, hline, h⟩ := Option.bind_eq_some_iff.mp h
  obtain ⟨⟨headers, rest₂⟩, hheaders, h⟩ := Option.bind_eq_some_iff.mp h
  obtain ⟨length, hlength, h⟩ := Option.bind_eq_some_iff.mp h
  split at h
  · cases h
  · next hlong =>
    cases h
    have hle : length ≤ rest₂.length := Nat.le_of_not_lt hlong
    have hfuel : rest₁.length ≤ (rest₁ ++ more).length := by
      rw [List.length_append]
      exact Nat.le_add_right _ _
    have hlong' : ¬ (rest₂ ++ more).length < length := by
      rw [List.length_append]
      exact Nat.not_lt.mpr (Nat.le_add_right_of_le hle)
    rw [decode, readLine_more hline more]
    simp only [bind, Option.bind, readHeaders_more hheaders hfuel more, hlength, if_neg hlong',
      List.take_append_of_le_length hle, List.drop_append_of_le_length hle]
    rfl

/-- As long as bytes of it are missing, a message is not taken for one. -/
theorem decode_truncated {m : Message} (h : m.WellFormed) {s more : Bytes} (heq : s ++ more = m.encode)
    (hmore : more ≠ []) : decode s = none := by
  cases hdecode : decode s with
  | none => rfl
  | some taken =>
    obtain ⟨m', rest⟩ := taken
    have hwhole := decode_encode h []
    rw [List.append_nil, ← heq, decode_more hdecode more] at hwhole
    have hrest : rest ++ more = [] := congrArg Prod.snd (Option.some.inj hwhole)
    exact absurd (List.append_eq_nil_iff.mp hrest).2 hmore

/-- What has arrived of a message is the message once it is complete, and nothing before. -/
theorem decode_take {m : Message} (h : m.WellFormed) (n : Nat) :
    decode (m.encode.take n) = if n < m.encode.length then none else some (m, []) := by
  split
  · next hlt =>
    refine decode_truncated h (List.take_append_drop n _) ?_
    exact List.drop_eq_nil_iff.not.mpr (Nat.not_le.mpr hlt)
  · next hge =>
    have hdecode := decode_encode h []
    rwa [List.append_nil, ← List.take_of_length_le (Nat.le_of_not_lt hge)] at hdecode

end IMSystem.Lib.Http
