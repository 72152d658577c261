import HitEnter.Wire.Frame

/-! Frames off a stream that hands over its bytes in pieces. -/

namespace HitEnter.Wire

/-- What a stream will hand over: pieces, and failures of the transport. -/
abbrev Stream := List (Except String (List UInt8))

/-- One read into a buffer of `room` bytes: of the next piece what fits, and nothing at the end. -/
def Stream.read (room : ℕ) : Stream → Except String (List UInt8) × Stream
  | [] => (.ok [], [])
  | .error why :: rest => (.error why, rest)
  | .ok piece :: rest => (.ok (piece.take room), if piece.length ≤ room then rest else .ok (piece.drop room) :: rest)

/-- Reads up to `size` bytes after those `read`, stopping early only at the end of the stream. -/
def fill (reader : Stream) (size : ℕ) (read : List UInt8 := []) : Except FrameError (List UInt8) × Stream :=
  if read.length < size then
    match reader.read (size - read.length) with
    | (.ok [], reader) => (.ok read, reader)
    | (.ok (b :: more), reader) => fill reader size (read ++ b :: more)
    | (.error why, reader) => (.error (.transport why), reader)
  else (.ok read, reader)
termination_by size - read.length
decreasing_by
  rw [List.length_append, List.length_cons]
  omega

/-- Reads one frame's body. -/
def readFrame (reader : Stream) : Except FrameError (List UInt8) × Stream :=
  match fill reader headerBytes with
  | (.error e, reader) => (.error e, reader)
  | (.ok header, reader) =>
    if header.length = 0 then (.error .closed, reader)
    else if header.length < headerBytes then (.error (.truncated header.length headerBytes), reader)
    else match bodyLen header with
      | .error e => (.error e, reader)
      | .ok expected =>
        match fill reader expected with
        | (.error e, reader) => (.error e, reader)
        | (.ok body, reader) =>
          if body.length < expected then (.error (.truncated body.length expected), reader) else (.ok body, reader)

/-- What so many reads give, one after the other. -/
def readFrames : ℕ → Stream → List (Except FrameError (List UInt8))
  | 0, _ => []
  | n + 1, reader => (readFrame reader).1 :: readFrames n (readFrame reader).2

/-- Writes one frame after what is written. -/
def writeFrame (written body : List UInt8) : Except FrameError (List UInt8) := do
  let frame ← encodeFrame body
  pure (written ++ frame)

/-- The stream hands over `bytes`, cut into pieces that are not empty. -/
def Stream.Carries (reader : Stream) (bytes : List UInt8) : Prop :=
  ∃ pieces : List (List UInt8), reader = pieces.map .ok ∧ (∀ piece ∈ pieces, piece ≠ []) ∧ pieces.flatten = bytes

section Read
variable {reader : Stream} {bytes : List UInt8}

/-- A read takes some of what is left, or there is nothing left. -/
theorem Stream.Carries.read (carries : reader.Carries bytes) {room : ℕ} (some_ : 0 < room) :
    ∃ got, (reader.read room).1 = .ok got ∧ got.length ≤ room ∧ (got = [] ↔ bytes = []) ∧
      ∃ left, bytes = got ++ left ∧ (reader.read room).2.Carries left := by
  obtain ⟨pieces, rfl, full, rfl⟩ := carries
  cases pieces with
  | nil => exact ⟨[], rfl, Nat.zero_le _, by simp, [], rfl, [], rfl, by simp, rfl⟩
  | cons piece rest =>
    have fullRest : ∀ p ∈ rest, p ≠ [] := fun p member => full p (List.mem_cons_of_mem piece member)
    have fullHere : piece ≠ [] := full piece List.mem_cons_self
    have taken : piece.take room ≠ [] := by
      rw [ne_eq, List.take_eq_nil_iff]
      exact not_or.mpr ⟨some_.ne', fullHere⟩
    refine ⟨piece.take room, rfl, List.length_take_le _ _, iff_of_false taken (by simp [fullHere]), ?_⟩
    refine ⟨piece.drop room ++ rest.flatten, by rw [List.flatten_cons, ← List.append_assoc, List.take_append_drop], ?_⟩
    change Stream.Carries (if piece.length ≤ room then rest.map .ok else .ok (piece.drop room) :: rest.map .ok) _
    split
    · rename_i all
      exact ⟨rest, rfl, fullRest, by rw [List.drop_eq_nil_of_le all, List.nil_append]⟩
    · rename_i part
      refine ⟨piece.drop room :: rest, rfl, ?_, rfl⟩
      rintro p (_ | ⟨_, member⟩)
      · rw [ne_eq, List.drop_eq_nil_iff]
        exact part
      · exact fullRest p member

/-- A buffer is filled with what comes next, as far as there is any. -/
theorem fill_carries {size : ℕ} {read : List UInt8} (fits : read.length ≤ size) (carries : reader.Carries bytes) :
    (fill reader size read).1 = .ok (read ++ bytes.take (size - read.length)) ∧
      (fill reader size read).2.Carries (bytes.drop (size - read.length)) := by
  induction gap : size - read.length using Nat.strong_induction_on generalizing reader bytes read with
  | _ room ih =>
    unfold fill
    split
    · rename_i short
      obtain ⟨got, found, small, empty, left, rfl, rest⟩ := carries.read (show 0 < room by omega)
      rw [gap]
      cases answer : reader.read room with
      | mk first after =>
        rw [answer] at found rest
        obtain rfl : first = .ok got := found
        cases got with
        | nil =>
          obtain rfl : left = [] := by simpa using empty.mp rfl
          simp only [List.take_nil, List.append_nil, List.drop_nil]
          exact ⟨trivial, rest⟩
        | cons b more =>
          have grown : (read ++ b :: more).length = read.length + (b :: more).length := List.length_append
          have one : (b :: more).length ≠ 0 := Nat.succ_ne_zero _
          obtain ⟨filled, left_⟩ := ih (size - (read ++ b :: more).length) (by omega) (by omega) rest rfl
          have room_ : room = (b :: more).length + (size - (read ++ b :: more).length) := by omega
          rw [room_, List.take_append, List.take_of_length_le (by omega), List.drop_append, List.drop_of_length_le (by omega)]
          simp only [Nat.add_sub_cancel_left, List.nil_append]
          exact ⟨by rw [filled, List.append_assoc], left_⟩
    · rename_i full
      obtain rfl : room = 0 := by omega
      rw [List.take_zero, List.append_nil, List.drop_zero]
      exact ⟨rfl, carries⟩

theorem fill_fresh (carries : reader.Carries bytes) (size : ℕ) :
    (fill reader size).1 = .ok (bytes.take size) ∧ (fill reader size).2.Carries (bytes.drop size) := by
  have none_ : ([] : List UInt8).length ≤ size := Nat.zero_le size
  simpa using fill_carries none_ carries

/-- A frame is its header and its body. -/
theorem encodeFrame_split {body frame : List UInt8} (written : encodeFrame body = .ok frame) :
    ∃ header, frame = header ++ body ∧ header.length = headerBytes ∧ bodyLen header = .ok body.length ∧ body ≠ [] := by
  obtain ⟨full, fits⟩ := encodeFrame_ok.mp ⟨frame, written⟩
  have length : (leBytes body.length).length = headerBytes := by simp [leBytes]
  have announced := bodyLen_encodeFrame written
  rw [encodeFrame, if_neg (by simpa using full), if_neg (not_lt.mpr fits)] at written
  cases written
  rw [List.take_left' length] at announced
  exact ⟨leBytes body.length, rfl, length, announced, full⟩

/-- What is read of a frame: its header first, as far as it is there. -/
theorem readFrame_eq (carries : reader.Carries bytes) : readFrame reader =
    if (bytes.take headerBytes).length = 0 then (.error .closed, (fill reader headerBytes).2)
    else if (bytes.take headerBytes).length < headerBytes then
      (.error (.truncated (bytes.take headerBytes).length headerBytes), (fill reader headerBytes).2)
    else match bodyLen (bytes.take headerBytes) with
      | .error e => (.error e, (fill reader headerBytes).2)
      | .ok expected =>
        if ((bytes.drop headerBytes).take expected).length < expected then
          (.error (.truncated ((bytes.drop headerBytes).take expected).length expected),
            (fill (fill reader headerBytes).2 expected).2)
        else (.ok ((bytes.drop headerBytes).take expected), (fill (fill reader headerBytes).2 expected).2) := by
  obtain ⟨header, left⟩ := fill_fresh carries headerBytes
  unfold readFrame
  cases first : fill reader headerBytes with
  | mk filled after =>
    rw [first] at header left
    obtain rfl : filled = .ok (bytes.take headerBytes) := header
    dsimp only
    congr 2
    cases announced : bodyLen (bytes.take headerBytes) with
    | error e => rfl
    | ok expected =>
      obtain ⟨body, _⟩ := fill_fresh left expected
      cases second : fill after expected with
      | mk filled' after' =>
        rw [second] at body
        obtain rfl : filled' = .ok ((bytes.drop headerBytes).take expected) := body
        simp only [second]

/-- A whole frame is read, and what follows it is left. -/
theorem readFrame_whole {body frame rest : List UInt8} (written : encodeFrame body = .ok frame)
    (carries : reader.Carries (frame ++ rest)) :
    (readFrame reader).1 = .ok body ∧ (readFrame reader).2.Carries rest := by
  obtain ⟨header, rfl, length, announced, _⟩ := encodeFrame_split written
  rw [List.append_assoc] at carries
  have head : (header ++ (body ++ rest)).take headerBytes = header := List.take_left' length
  have tail : (header ++ (body ++ rest)).drop headerBytes = body ++ rest := List.drop_left' length
  have four : headerBytes ≠ 0 := by decide
  rw [readFrame_eq carries, head, tail, announced, length, if_neg four, if_neg (lt_irrefl _)]
  simp only [List.take_left, lt_irrefl, if_false]
  have left := (fill_fresh carries headerBytes).2
  rw [tail] at left
  have left' := (fill_fresh left body.length).2
  rw [List.drop_left] at left'
  exact ⟨trivial, left'⟩

theorem readFrame_end (carries : reader.Carries []) : (readFrame reader).1 = .error .closed := by
  rw [readFrame_eq carries]
  rfl

/-- A frame that is cut is told from an end between frames. -/
theorem readFrame_cut {body frame part missing : List UInt8} (written : encodeFrame body = .ok frame)
    (cut : frame = part ++ missing) (begun : part ≠ []) (lost : missing ≠ []) (carries : reader.Carries part) :
    ∃ read expected, (readFrame reader).1 = .error (.truncated read expected) := by
  obtain ⟨header, rfl, length, announced, full⟩ := encodeFrame_split written
  have some_ : part.length ≠ 0 := fun none_ => begun (List.length_eq_zero_iff.mp none_)
  have gone : missing.length ≠ 0 := fun none_ => lost (List.length_eq_zero_iff.mp none_)
  have total := congrArg List.length cut
  rw [List.length_append, List.length_append, length] at total
  rw [readFrame_eq carries, if_neg (by rw [List.length_take]; simp only [headerBytes]; omega)]
  by_cases short : part.length < headerBytes
  · rw [if_pos (by rw [List.length_take]; omega)]
    exact ⟨_, _, rfl⟩
  · have head : part.take headerBytes = header := by
      have whole := congrArg (List.take headerBytes) cut
      rw [List.take_left' length, List.take_append_of_le_length (not_lt.mp short)] at whole
      exact whole.symm
    rw [head, length, if_neg (lt_irrefl _), announced]
    have less : ((part.drop headerBytes).take body.length).length < body.length := by
      rw [List.length_take, List.length_drop]
      omega
    simp only [less, if_true]
    exact ⟨_, _, rfl⟩

end Read

/-! ### Many frames -/

section Many
variable {reader : Stream} {bodies : List (List UInt8)}

/-- The frames of `bodies`, one after the other. -/
def framed (bodies : List (List UInt8)) : List UInt8 := (bodies.map fun body => leBytes body.length ++ body).flatten

def Fits (body : List UInt8) : Prop := 1 ≤ body.length ∧ body.length ≤ maxFrameBytes

theorem encodeFrame_fits {body : List UInt8} (fits : Fits body) : encodeFrame body = .ok (leBytes body.length ++ body) := by
  have full : body.isEmpty = false := by
    rw [Bool.eq_false_iff, ne_eq, List.isEmpty_iff, ← List.length_eq_zero_iff]
    exact Nat.one_le_iff_ne_zero.mp fits.1
  rw [encodeFrame, full, if_neg Bool.false_ne_true, if_neg (not_lt.mpr fits.2)]

theorem foldlM_writeFrame (fit : ∀ body ∈ bodies, Fits body) (start : List UInt8) :
    bodies.foldlM writeFrame start = .ok (start ++ framed bodies) := by
  induction bodies generalizing start with
  | nil => simp [framed, pure, Except.pure]
  | cons body rest ih =>
    have here : writeFrame start body = .ok (start ++ (leBytes body.length ++ body)) := by
      rw [writeFrame, encodeFrame_fits (fit body List.mem_cons_self)]
      rfl
    rw [List.foldlM_cons, here]
    change rest.foldlM writeFrame _ = _
    rw [ih fun b member => fit b (List.mem_cons_of_mem body member)]
    simp [framed]

/-- Whole frames are read one by one, whatever is read after them. -/
theorem readFrames_framed (fit : ∀ body ∈ bodies, Fits body) {rest : List UInt8} (n : ℕ)
    (carries : reader.Carries (framed bodies ++ rest)) :
    ∃ left, left.Carries rest ∧ readFrames (bodies.length + n) reader = bodies.map .ok ++ readFrames n left := by
  induction bodies generalizing reader with
  | nil => exact ⟨reader, carries, by simp⟩
  | cons body more ih =>
    have split : framed (body :: more) ++ rest = (leBytes body.length ++ body) ++ (framed more ++ rest) := by simp [framed]
    rw [split] at carries
    obtain ⟨read, after⟩ := readFrame_whole (encodeFrame_fits (fit body List.mem_cons_self)) carries
    obtain ⟨left, carried, reads⟩ := ih (fun b member => fit b (List.mem_cons_of_mem body member)) after
    refine ⟨left, carried, ?_⟩
    rw [List.length_cons, Nat.succ_add, readFrames, read, reads]
    rfl

/-- However a transport cuts what is written, the bodies come back in order, and then the stream is
closed; and a stream that ends inside a frame gives those before it, and is truncated. -/
theorem readFrames_written (bodies : List (List UInt8)) (fit : ∀ body ∈ bodies, Fits body) : 
    ∃ written, bodies.foldlM writeFrame [] = .ok written ∧
    (∀ reader : Stream, reader.Carries written →
      readFrames (bodies.length + 1) reader = bodies.map .ok ++ [.error .closed]) ∧
    ∀ before body after start stop n, bodies = before ++ body :: after → before.foldlM writeFrame [] = .ok start →
      writeFrame start body = .ok stop → start.length < n → n < stop.length →
        ∀ reader : Stream, reader.Carries (written.take n) → ∃ read expected,
          readFrames (before.length + 1) reader = before.map .ok ++ [.error (.truncated read expected)] := by
  refine ⟨framed bodies, by simpa using foldlM_writeFrame fit [], ?_, ?_⟩
  · intro reader carries
    rw [← List.append_nil (framed bodies)] at carries
    obtain ⟨left, carried, reads⟩ := readFrames_framed fit 1 carries
    rw [reads, readFrames, readFrame_end carried, readFrames]
  · rintro before body after start stop n rfl begun ended past short reader carries
    have fitBefore : ∀ b ∈ before, Fits b := fun b member => fit b (List.mem_append_left _ member)
    have fitBody := fit body (List.mem_append_right _ List.mem_cons_self)
    obtain rfl : framed before = start := by
      rw [foldlM_writeFrame fitBefore] at begun
      exact Except.ok.inj begun
    obtain rfl : framed before ++ (leBytes body.length ++ body) = stop := by
      rw [writeFrame, encodeFrame_fits fitBody] at ended
      exact Except.ok.inj ended
    have whole : framed (before ++ body :: after) = framed before ++ ((leBytes body.length ++ body) ++ framed after) := by
      simp [framed]
    rw [List.length_append] at short
    have cut : (framed (before ++ body :: after)).take n =
        framed before ++ (leBytes body.length ++ body).take (n - (framed before).length) := by
      rw [whole, List.take_append, List.take_of_length_le past.le, List.take_append_of_le_length (by omega)]
    rw [cut] at carries
    obtain ⟨left, carried, reads⟩ := readFrames_framed fitBefore 1 carries
    have begun' : (leBytes body.length ++ body).take (n - (framed before).length) ≠ [] := by
      rw [← List.length_pos_iff, List.length_take]
      omega
    have lost : (leBytes body.length ++ body).drop (n - (framed before).length) ≠ [] := by
      rw [← List.length_pos_iff, List.length_drop]
      omega
    obtain ⟨read, expected, truncated⟩ := readFrame_cut (encodeFrame_fits fitBody) (List.take_append_drop _ _).symm
      begun' lost carried
    exact ⟨read, expected, by rw [reads, readFrames, truncated, readFrames]⟩

end Many

/-- One frame in three pieces, cut in its header and in its body. -/
theorem readFrames_written_pieces : readFrames 2 [.ok [2], .ok [0, 0, 0, 91], .ok [93]] = [.ok [91, 93], .error .closed] := by
  obtain ⟨written, wrote, reads, _⟩ := readFrames_written [[91, 93]] (by simp [Fits, maxFrameBytes])
  obtain rfl : [2, 0, 0, 0, 91, 93] = written := Except.ok.inj wrote
  exact reads _ ⟨[[2], [0, 0, 0, 91], [93]], rfl, by simp, rfl⟩

end HitEnter.Wire
