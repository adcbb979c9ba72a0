import OpenRelay.Smtp.Inbox
import OpenRelay.Proofs.Smtp.Grammar

/-!
# Replies do not depend on how their bytes arrive

A connection brings its bytes in chunks, and a chunk may end anywhere: within a line, within a line
ending, within a character. What is read from it is said by its lines alone, as long as none of
them is longer than lines may be.

* `Inbox.reads_readLine`: what a call for a line does, for each way in which it can end.
* `Inbox.Carries`: the invariant, on what is at hand and what is still to come.
* `Inbox.Carries.readReply`: one reply takes its lines and leaves the others.
* `replies_of_stream`: replies read one after the other are those of the stream, however it arrives.
-/

namespace OpenRelay

variable {stream bs line rest buffer : List UInt8} {lines chunks : List (List UInt8)} {i : Inbox}

/-! ## The lines of a stream -/

/-- The byte that ends a line. -/
def lineFeed : UInt8 := 0x0A

/-- The full lines of a stream, without their line feeds. -/
def fullLines (stream : List UInt8) : List (List UInt8) := (stream.splitOn lineFeed).dropLast

/-- What stands behind the last line feed of a stream. -/
def openLine (stream : List UInt8) : List UInt8 :=
  (stream.splitOn lineFeed).getLast (List.splitOn_ne_nil _ _)

/-- Lines with their line feeds. -/
def joinLines (lines : List (List UInt8)) : List UInt8 := lines.flatMap (· ++ [lineFeed])

theorem joinLines_cons (line : List UInt8) (lines : List (List UInt8)) :
    joinLines (line :: lines) = line ++ lineFeed :: joinLines lines := by
  simp [joinLines]

/-- Every stream consists of lines and what stands behind the last of them. -/
theorem exists_lines (stream : List UInt8) : ∃ lines rest, stream = joinLines lines ++ rest ∧
    (∀ line ∈ lines, lineFeed ∉ line) ∧ lineFeed ∉ rest := by
  induction stream with
  | nil => exact ⟨[], [], rfl, by simp, by simp⟩
  | cons b bs ih =>
    obtain ⟨lines, rest, rfl, hlines, hrest⟩ := ih
    by_cases hb : b = lineFeed
    · subst hb
      exact ⟨[] :: lines, rest, by simp [joinLines_cons], by simpa using hlines, hrest⟩
    · -- the byte belongs to the first line, or to the rest if there is no line
      cases lines with
      | nil =>
        exact ⟨[], b :: rest, rfl, by simp, by simpa [hrest] using Ne.symm hb⟩
      | cons line lines =>
        obtain ⟨hline, hlines⟩ := List.forall_mem_cons.1 hlines
        refine ⟨(b :: line) :: lines, rest, by simp [joinLines_cons], ?_, hrest⟩
        exact List.forall_mem_cons.2 ⟨by simpa [hline] using Ne.symm hb, hlines⟩

theorem splitOn_joinLines (hlines : ∀ line ∈ lines, lineFeed ∉ line) (hrest : lineFeed ∉ rest) :
    (joinLines lines ++ rest).splitOn lineFeed = lines ++ [rest] := by
  induction lines with
  | nil => exact List.splitOn_eq_singleton hrest
  | cons line lines ih =>
    obtain ⟨hline, hlines⟩ := List.forall_mem_cons.1 hlines
    rw [joinLines_cons, List.append_assoc, List.cons_append,
      List.splitOn_append_cons_self_of_not_mem hline, ih hlines, List.cons_append]

/-! ## One line -/

theorem cutLine_eq_some_iff :
    cutLine bs = some (line, rest) ↔ lineFeed ∉ line ∧ bs = line ++ lineFeed :: rest := by
  induction bs generalizing line with
  | nil => simp [cutLine]
  | cons b bs ih =>
    rw [cutLine]
    by_cases hb : b = 0x0A
    · rw [if_pos hb]
      subst hb
      cases line with
      | nil => simp [lineFeed, eq_comm]
      | cons b' line => simp +contextual [lineFeed, eq_comm]
    · rw [if_neg hb, Option.map_eq_some_iff]
      cases line with
      | nil => simp [lineFeed, hb]
      | cons b' line =>
        simp only [Prod.exists, Prod.mk.injEq, List.cons_append, List.cons.injEq, List.mem_cons, not_or]
        constructor
        · rintro ⟨_, _, hcut, ⟨rfl, rfl⟩, rfl⟩
          obtain ⟨hline, rfl⟩ := ih.1 hcut
          exact ⟨⟨Ne.symm hb, hline⟩, rfl, rfl⟩
        · rintro ⟨⟨-, hline⟩, rfl, rfl⟩
          exact ⟨line, rest, ih.2 ⟨hline, rfl⟩, ⟨rfl, rfl⟩, rfl⟩

theorem cutLine_eq_none_iff : cutLine bs = none ↔ lineFeed ∉ bs := by
  induction bs with
  | nil => simp [cutLine]
  | cons b bs ih =>
    rw [cutLine]
    by_cases hb : b = 0x0A
    · simp [hb, lineFeed]
    · rw [if_neg hb, Option.map_eq_none_iff, ih]
      simp [lineFeed, Ne.symm hb]

/-- Bytes without a line feed belong to the line whose beginning they are. -/
theorem length_le_of_append (hbuffer : lineFeed ∉ buffer)
    (h : buffer ++ bs = line ++ lineFeed :: rest) : buffer.length ≤ line.length := by
  rcases List.append_eq_append_iff.1 h with ⟨more, rfl, -⟩ | ⟨more, rfl, hmore⟩
  · simp
  · cases more with
    | nil => simp
    | cons b more =>
      obtain ⟨rfl, -⟩ := List.cons.inj hmore
      simp at hbuffer

namespace Inbox

/-- The bytes at hand and those still to come. -/
def pending (i : Inbox) : List UInt8 := i.buffer ++ i.chunks.flatten

/-- The bytes at hand after so many more reads. -/
def arrived (i : Inbox) (n : Nat) : List UInt8 := i.buffer ++ (i.chunks.take n).flatten

/-- After none of the first `n` reads is a full line at hand, or more bytes than a line may have. -/
def Waits (i : Inbox) (n : Nat) : Prop :=
  ∀ m < n, lineFeed ∉ i.arrived m ∧ (i.arrived m).length ≤ maxReplyLine

/-- What a call for a line does, for each way in which it can end. -/
inductive Reads (i : Inbox) : Inbox → Except ReplyError String → Prop where
  | line {n : Nat} {line rest : List UInt8} (hwaits : i.Waits n) (hline : lineFeed ∉ line)
      (harrived : i.arrived n = line ++ lineFeed :: rest) :
      i.Reads { i with buffer := rest, chunks := i.chunks.drop n } (.ok (lineText line))
  | long {n : Nat} (hopen : lineFeed ∉ i.arrived n) (hlong : maxReplyLine < (i.arrived n).length) :
      i.Reads { i with buffer := i.arrived n, chunks := i.chunks.drop n } (.error .longLine)
  | ended (hopen : lineFeed ∉ i.pending) (hshort : i.pending.length ≤ maxReplyLine) :
      i.Reads { i with buffer := i.pending, chunks := [] }
        (.error (if i.closes then .closed else .timedOut))

theorem arrived_zero (i : Inbox) : i.arrived 0 = i.buffer := List.append_nil _

theorem pending_eq (i : Inbox) (n : Nat) :
    i.pending = i.arrived n ++ (i.chunks.drop n).flatten := by
  rw [arrived, List.append_assoc, ← List.flatten_append, List.take_append_drop, pending]

/-- A read brings the next chunk. -/
theorem arrived_cons {chunk : List UInt8} {closes : Bool} (n : Nat) :
    ({ buffer, chunks := chunk :: chunks, closes } : Inbox).arrived (n + 1) =
      ({ buffer := buffer ++ chunk, chunks, closes } : Inbox).arrived n := by
  simp [arrived]

/-- Where nothing is decided before the next chunk, what is decided with it is decided. -/
theorem Reads.later {chunk : List UInt8} {closes : Bool} {j : Inbox} {r : Except ReplyError String}
    (hopen : lineFeed ∉ buffer) (hshort : buffer.length ≤ maxReplyLine)
    (h : ({ buffer := buffer ++ chunk, chunks, closes } : Inbox).Reads j r) :
    ({ buffer, chunks := chunk :: chunks, closes } : Inbox).Reads j r := by
  cases h with
  | @line n line rest hwaits hline harrived =>
    refine .line (n := n + 1) (fun m hm => ?_) hline (arrived_cons n ▸ harrived)
    cases m with
    | zero => exact (arrived_zero _).symm ▸ ⟨hopen, hshort⟩
    | succ m => exact arrived_cons m ▸ hwaits m (Nat.lt_of_succ_lt_succ hm)
  | @long n hopen' hlong =>
    have hnext : ({ buffer, chunks := chunk :: chunks, closes } : Inbox).arrived (n + 1) =
        ({ buffer := buffer ++ chunk, chunks, closes } : Inbox).arrived n := arrived_cons n
    rw [← hnext] at hopen' hlong ⊢
    exact .long hopen' hlong
  | ended hopen' hshort' =>
    have hall : ({ buffer := buffer ++ chunk, chunks, closes } : Inbox).pending =
        ({ buffer, chunks := chunk :: chunks, closes } : Inbox).pending := by
      simp [pending]
    rw [hall] at hopen' hshort' ⊢
    exact .ended hopen' hshort'

theorem Reads.atOnce (hopen : lineFeed ∉ i.buffer) (hlong : maxReplyLine < i.buffer.length) :
    i.Reads i (.error .longLine) := by
  have h := Reads.long (i := i) (n := 0)
  rw [arrived_zero] at h
  exact h hopen hlong

/-- **Every call for a line ends in one of these ways.** -/
theorem reads_readLine (i : Inbox) : i.Reads i.readLine.1 i.readLine.2 := by
  obtain ⟨buffer, chunks, closes⟩ := i
  unfold readLine
  dsimp only
  induction chunks generalizing buffer with
  | nil =>
    rw [readLineFrom, takeLine]
    cases hcut : cutLine buffer with
    | some found =>
      obtain ⟨hline, heq⟩ := cutLine_eq_some_iff.1 hcut
      exact .line (n := 0) nofun hline ((arrived_zero _).trans heq)
    | none =>
      have hopen := cutLine_eq_none_iff.1 hcut
      dsimp only [Option.map_none]
      split
      · rename_i hlong
        exact .atOnce hopen hlong
      · rename_i hshort
        have hall : ({ buffer, closes } : Inbox).pending = buffer := List.append_nil _
        have hended := Reads.ended (i := { buffer, closes })
        rw [hall] at hended
        exact hended hopen (Nat.le_of_not_lt hshort)
  | cons chunk chunks ih =>
    rw [readLineFrom, takeLine]
    cases hcut : cutLine buffer with
    | some found =>
      obtain ⟨hline, heq⟩ := cutLine_eq_some_iff.1 hcut
      exact .line (n := 0) nofun hline ((arrived_zero _).trans heq)
    | none =>
      have hopen := cutLine_eq_none_iff.1 hcut
      dsimp only [Option.map_none]
      split
      · rename_i hlong
        exact .atOnce hopen hlong
      · rename_i hshort
        exact (ih (buffer ++ chunk)).later hopen (Nat.le_of_not_lt hshort)

/-- Bytes without a line feed that arrived belong to the next line. -/
theorem length_arrived_le {n : Nat} (hopen : lineFeed ∉ i.arrived n)
    (h : i.pending = line ++ lineFeed :: rest) : (i.arrived n).length ≤ line.length :=
  length_le_of_append hopen ((i.pending_eq n).symm.trans h)

/-- The next line is read, unless it is refused. -/
theorem readLine_next (hline : lineFeed ∉ line) (hfits : i.readLine.2 ≠ .error .longLine)
    (h : i.pending = line ++ lineFeed :: rest) :
    ∃ j, i.readLine = (j, .ok (lineText line)) ∧ j.pending = rest ∧ j.closes = i.closes := by
  have hreads := i.reads_readLine
  generalize hread : i.readLine = read at hreads hfits
  obtain ⟨j, r⟩ := read
  cases hreads with
  | @line n line' rest' _ hline' harrived =>
    -- both lines are the one that is cut off from all that is pending
    have hwhole := cutLine_eq_some_iff.2 ⟨hline, h⟩
    rw [i.pending_eq n, harrived, List.append_assoc, List.cons_append,
      cutLine_eq_some_iff.2 ⟨hline', rfl⟩] at hwhole
    cases hwhole
    exact ⟨_, rfl, rfl, rfl⟩
  | long _ _ => exact absurd rfl hfits
  | ended hopen _ => simp [h] at hopen

theorem readLine_ne_longLine (hshort : line.length ≤ maxReplyLine)
    (h : i.pending = line ++ lineFeed :: rest) : i.readLine.2 ≠ .error .longLine := by
  have hreads := i.reads_readLine
  generalize i.readLine = read at hreads
  obtain ⟨j, r⟩ := read
  cases hreads with
  | line _ _ _ => exact nofun
  | long hopen hlong => exact absurd (length_arrived_le hopen h) (by omega)
  | ended hopen _ => simp [h] at hopen

/-- **The next line is read**, in whatever chunks it comes. -/
theorem readLine_line (hline : lineFeed ∉ line) (hshort : line.length ≤ maxReplyLine)
    (h : i.pending = line ++ lineFeed :: rest) :
    ∃ j, i.readLine = (j, .ok (lineText line)) ∧ j.pending = rest ∧ j.closes = i.closes :=
  readLine_next hline (readLine_ne_longLine hshort h) h

/-- **Without another line the end of the connection is read.** -/
theorem readLine_end (hrest : lineFeed ∉ i.pending) (hshort : i.pending.length ≤ maxReplyLine)
    (hcloses : i.closes = true) :
    i.readLine = ({ buffer := i.pending, closes := true }, .error .closed) := by
  have hreads := i.reads_readLine
  generalize i.readLine = read at hreads
  obtain ⟨j, r⟩ := read
  cases hreads with
  | @line n line rest _ _ harrived =>
    rw [i.pending_eq n, harrived] at hrest
    simp at hrest
  | @long n _ hlong =>
    rw [i.pending_eq n, List.length_append] at hshort
    omega
  | ended _ _ => simp [hcloses]

end Inbox

/-! ## One reply -/

namespace Draft

variable {d d' : Draft}

/-- Reads a reply from lines, and leaves those behind it. -/
def readFrom (d : Draft) : List (List UInt8) → List (List UInt8) × Except ReplyError Reply
  | [] => ([], .error .closed)
  | line :: lines =>
    match d.push (lineText line) with
    | (_, .error e) => (lines, .error e)
    | (d, .ok true) => (lines, d.finish)
    | (d, .ok false) => d.readFrom lines

/-- A draft that takes a line has room for it. -/
theorem length_push {text : List Char} {final : Bool}
    (h : d.push (String.ofList text) = (d', .ok final)) :
    d'.lines.length = d.lines.length + 1 ∧ d'.lines.length ≤ maxReplyLines := by
  rcases d.push_cases text with ⟨e, hpush, -⟩ | ⟨code, hcode, hd, hroom⟩
  · rw [h] at hpush
    cases hpush
  · cases (push_of_spells hcode hd hroom).symm.trans h
    rw [List.length_append, List.length_singleton]
    exact ⟨rfl, hroom⟩

/-- No reply is refused because a line of it is too long. -/
theorem readFrom_ne_longLine (d : Draft) (lines : List (List UInt8)) :
    (d.readFrom lines).2 ≠ .error .longLine := by
  induction lines generalizing d with
  | nil => simp [readFrom]
  | cons line lines ih =>
    rw [readFrom, lineText]
    rcases d.push_cases (Text.Utf8.decodeLossy (dropReturnByte line)) with
      ⟨e, hpush, he⟩ | ⟨code, hcode, hd, hroom⟩
    · generalize d.push (String.ofList _) = pushed at hpush
      obtain ⟨d', out⟩ := pushed
      obtain rfl : out = .error e := hpush
      rintro ⟨⟩
      cases he
    · rw [push_of_spells hcode hd hroom]
      cases decide (separator? (Text.Utf8.decodeLossy (dropReturnByte line)) ≠ some '-') with
      | true => simp [finish]
      | false => exact ih _

end Draft

namespace Inbox

/-- Through an inbox come these lines, and then these bytes, before the connection is closed. None
of them is too long. -/
structure Carries (i : Inbox) (lines : List (List UInt8)) (rest : List UInt8) : Prop where
  pending : i.pending = joinLines lines ++ rest
  closes : i.closes = true
  lines : ∀ line ∈ lines, lineFeed ∉ line ∧ line.length ≤ maxReplyLine
  rest : lineFeed ∉ rest ∧ rest.length ≤ maxReplyLine

theorem Carries.readLine_cons (h : i.Carries (line :: lines) rest) :
    ∃ j, i.readLine = (j, .ok (lineText line)) ∧ j.Carries lines rest := by
  obtain ⟨⟨hline, hshort⟩, hlines⟩ := List.forall_mem_cons.1 h.lines
  have hpending := h.pending
  rw [joinLines_cons, List.append_assoc, List.cons_append] at hpending
  obtain ⟨j, hread, hj, hcloses⟩ := readLine_line hline hshort hpending
  exact ⟨j, hread, hj, hcloses.trans h.closes, hlines, h.rest⟩

theorem Carries.readLine_nil (h : i.Carries [] rest) :
    ∃ j, i.readLine = (j, .error .closed) ∧ j.Carries [] rest := by
  have hpending : i.pending = rest := h.pending
  obtain ⟨hrest, hshort⟩ := h.rest
  refine ⟨_, readLine_end (hpending ▸ hrest) (hpending ▸ hshort) h.closes, ?_, rfl, h.lines, h.rest⟩
  show i.pending ++ [] = joinLines [] ++ rest
  rw [List.append_nil]
  exact h.pending

theorem Carries.readReplyFrom {budget : Nat} {d : Draft} (h : i.Carries lines rest)
    (hroom : d.lines.length ≤ maxReplyLines)
    (hbudget : d.lines.length + budget = maxReplyLines + 1) :
    (Inbox.readReplyFrom readLine budget d i).2 = (d.readFrom lines).2 ∧
      (Inbox.readReplyFrom readLine budget d i).1.Carries (d.readFrom lines).1 rest := by
  induction budget generalizing d i lines with
  | zero => omega
  | succ budget ih =>
    cases lines with
    | nil =>
      obtain ⟨j, hread, hj⟩ := h.readLine_nil
      rw [Inbox.readReplyFrom, hread, Draft.readFrom]
      exact ⟨rfl, hj⟩
    | cons line lines =>
      obtain ⟨j, hread, hj⟩ := h.readLine_cons
      rw [Inbox.readReplyFrom, hread, Draft.readFrom]
      dsimp only
      generalize hpush : d.push (lineText line) = pushed
      obtain ⟨d', _ | _ | _⟩ := pushed
      · exact ⟨rfl, hj⟩
      · obtain ⟨hlength, hroom'⟩ := Draft.length_push hpush
        exact ih hj hroom' (by omega)
      · exact ⟨rfl, hj⟩

/-- **A reply takes its lines and leaves the others**, in whatever chunks they come. -/
theorem Carries.readReply (h : i.Carries lines rest) :
    i.readReply.2 = (({} : Draft).readFrom lines).2 ∧
      i.readReply.1.Carries (({} : Draft).readFrom lines).1 rest :=
  h.readReplyFrom (Nat.zero_le _) (Nat.zero_add _)

end Inbox

/-! ## Any number of replies -/

/-- Reads so many times, one after the other. -/
def readTimes {σ β : Type} (read : σ → σ × β) : Nat → σ → σ × List β
  | 0, s => (s, [])
  | n + 1, s => ((readTimes read n (read s).1).1, (read s).2 :: (readTimes read n (read s).1).2)

theorem Inbox.Carries.readTimes (h : i.Carries lines rest) (n : Nat) :
    (OpenRelay.readTimes Inbox.readReply n i).2 =
        (OpenRelay.readTimes (Draft.readFrom {}) n lines).2 ∧
      (OpenRelay.readTimes Inbox.readReply n i).1.Carries
        (OpenRelay.readTimes (Draft.readFrom {}) n lines).1 rest := by
  induction n generalizing i lines with
  | zero => exact ⟨rfl, h⟩
  | succ n ih =>
    obtain ⟨hreply, hnext⟩ := h.readReply
    obtain ⟨hreplies, hlast⟩ := ih hnext
    exact ⟨by rw [OpenRelay.readTimes, OpenRelay.readTimes, hreply, hreplies], hlast⟩

theorem ne_longLine_of_mem_readTimes {n : Nat} {r : Except ReplyError Reply}
    (h : r ∈ (readTimes (Draft.readFrom {}) n lines).2) : r ≠ .error .longLine := by
  induction n generalizing lines with
  | zero => simp [readTimes] at h
  | succ n ih =>
    rcases List.mem_cons.1 h with rfl | h
    · exact Draft.readFrom_ne_longLine _ _
    · exact ih h

/-- A way in which a stream arrives: each read brings a byte at least, and `maxRead` bytes at most. -/
structure Arrives (stream : List UInt8) (chunks : List (List UInt8)) : Prop where
  whole : chunks.flatten = stream
  sizes : ∀ chunk ∈ chunks, chunk ≠ [] ∧ chunk.length ≤ maxRead

theorem Arrives.carries (h : Arrives stream chunks)
    (hshort : ∀ line ∈ stream.splitOn lineFeed, line.length ≤ maxReplyLine) :
    ({ chunks, closes := true } : Inbox).Carries (fullLines stream) (openLine stream) := by
  obtain ⟨lines, rest, rfl, hlines, hrest⟩ := exists_lines stream
  have hpieces := splitOn_joinLines hlines hrest
  rw [hpieces, List.forall_mem_append, List.forall_mem_singleton] at hshort
  have hfull : fullLines (joinLines lines ++ rest) = lines := by
    rw [fullLines, hpieces, List.dropLast_concat]
  have hopen : openLine (joinLines lines ++ rest) = rest := by
    simp only [openLine, hpieces, List.getLast_concat]
  rw [hfull, hopen]
  exact ⟨h.whole, rfl, fun line hline => ⟨hlines line hline, hshort.1 line hline⟩, hrest, hshort.2⟩

/-- **Replies do not depend on how their bytes arrive.** If no line of a stream is too long, replies
read one after the other are those of its lines: each of them takes lines from the front, up to its
last line or a fault, and when there are no more lines the connection was closed. What is not taken
stays, and no line is called too long. -/
theorem replies_of_stream (h : Arrives stream chunks)
    (hshort : ∀ line ∈ stream.splitOn lineFeed, line.length ≤ maxReplyLine) (n : Nat) :
    let inbox := readTimes Inbox.readReply n { chunks, closes := true }
    let lines := readTimes (Draft.readFrom {}) n (fullLines stream)
    inbox.2 = lines.2 ∧ inbox.1.pending = joinLines lines.1 ++ openLine stream ∧
      .error .longLine ∉ inbox.2 := by
  intro inbox lines
  obtain ⟨hreplies, hrest⟩ := (h.carries hshort).readTimes n
  exact ⟨hreplies, hrest.pending,
    fun hmem => ne_longLine_of_mem_readTimes (hreplies ▸ hmem) rfl⟩

/-- Two replies and the beginning of a third, in chunks that end within a line ending, within a
character and within a line. -/
theorem replies_of_cut_stream :
    let chunks := [[0x32, 0x32, 0x30, 0x2D, 0x61, 0x0D], [0x0A, 0x32, 0x32, 0x30, 0x20, 0xC3],
      [0xA9, 0x0D, 0x0A, 0x32, 0x35], [0x30, 0x0A, 0x33, 0x35, 0x34]]
    (readTimes Inbox.readReply 3 { chunks, closes := true }).2 =
      [.ok { code := 220, text := "a\n\u00E9" }, .ok { code := 250, text := "" },
        .error .closed] := by
  intro chunks
  have harrives : Arrives chunks.flatten chunks := ⟨rfl, by decide⟩
  rw [(replies_of_stream harrives (by decide) 3).1]
  rfl

end OpenRelay
