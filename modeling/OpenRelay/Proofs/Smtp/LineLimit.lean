import Mathlib.Data.List.TakeWhile
import OpenRelay.Proofs.Smtp.Inbox

/-!
# How long lines may be

Bytes may wait for the end of their line until there are more than `maxReplyLine` of them. That is
looked at between two reads, and only if no full line is at hand, so whether a longer line is
refused depends on how it arrives.

* `Inbox.readLine_eq_longLine_iff`: a line is refused if a read ends behind the limit and within it.
* `Inbox.Tidy.exists_cut`: some read does, if one more is not enough for the rest of the line.
* `Inbox.Tidy.readTimes`: calls take the lines they answer with, and leave no more than one read.
* `line_limit`: which lines of a stream are refused in every case, in no case, and otherwise when.
* `readLine_drip`, `readLine_rush`: two ways for a line to arrive, one in which it is refused and
  one in which it is read.
-/

namespace OpenRelay

variable {stream bs part line rest : List UInt8} {chunks : List (List UInt8)} {i j : Inbox}
  {r : Except ReplyError String}

/-! ## The next line -/

/-- The bytes before the first line feed, or all of them if there is none. -/
def nextLine (bytes : List UInt8) : List UInt8 := bytes.takeWhile (· ≠ lineFeed)

theorem nextLine_isPrefix (bytes : List UInt8) : nextLine bytes <+: bytes :=
  List.takeWhile_prefix _

theorem lineFeed_not_mem_nextLine (bytes : List UInt8) : lineFeed ∉ nextLine bytes := by
  intro h
  have := List.mem_takeWhile_imp h
  simp at this

/-- The first bytes have no line feed exactly if they belong to the next line. -/
theorem lineFeed_not_mem_iff (h : part <+: bs) :
    lineFeed ∉ part ↔ part.length ≤ (nextLine bs).length := by
  constructor
  · intro hopen
    obtain ⟨rest, rfl⟩ := h
    have hpart : ∀ b ∈ part, decide (b ≠ lineFeed) = true :=
      fun b hb => decide_eq_true (ne_of_mem_of_not_mem hb hopen)
    rw [nextLine, List.takeWhile_append_of_pos hpart, List.length_append]
    omega
  · intro hle hmem
    have hpart := List.prefix_of_prefix_length_le h (nextLine_isPrefix bs) hle
    exact lineFeed_not_mem_nextLine bs (hpart.subset hmem)

theorem nextLine_append (h : lineFeed ∉ line) : nextLine (line ++ lineFeed :: rest) = line := by
  have hline : ∀ b ∈ line, decide (b ≠ lineFeed) = true :=
    fun b hb => decide_eq_true (ne_of_mem_of_not_mem hb h)
  rw [nextLine, List.takeWhile_append_of_pos hline, List.takeWhile_cons_of_neg (by simp),
    List.append_nil]

theorem nextLine_eq_self (h : lineFeed ∉ bs) : nextLine bs = bs :=
  (nextLine_isPrefix bs).eq_of_length_le ((lineFeed_not_mem_iff List.prefix_rfl).1 h)

namespace Inbox

/-! ## One call -/

theorem arrived_isPrefix (i : Inbox) (n : Nat) : i.arrived n <+: i.pending :=
  ⟨_, (i.pending_eq n).symm⟩

/-- After the last read all is at hand. -/
theorem arrived_length (i : Inbox) : i.arrived i.chunks.length = i.pending := by
  rw [arrived, List.take_length, pending]

theorem arrived_add (i : Inbox) (n k : Nat) :
    i.arrived (n + k) = i.arrived n ++ ((i.chunks.drop n).take k).flatten := by
  rw [arrived, arrived, List.take_add, List.flatten_append, List.append_assoc]

theorem length_arrived_mono (i : Inbox) {n m : Nat} (h : n ≤ m) :
    (i.arrived n).length ≤ (i.arrived m).length := by
  obtain ⟨k, rfl⟩ := Nat.exists_eq_add_of_le h
  rw [arrived_add, List.length_append]
  omega

/-- **A line is refused if a read ends behind the limit and within the line**, and only then. -/
theorem readLine_eq_longLine_iff : i.readLine.2 = .error .longLine ↔
    ∃ n, maxReplyLine < (i.arrived n).length ∧
      (i.arrived n).length ≤ (nextLine i.pending).length := by
  have hopen : ∀ n, lineFeed ∉ i.arrived n ↔ (i.arrived n).length ≤ (nextLine i.pending).length :=
    fun n => lineFeed_not_mem_iff (i.arrived_isPrefix n)
  have hreads := i.reads_readLine
  generalize i.readLine = read at hreads
  obtain ⟨j, r⟩ := read
  cases hreads with
  | @line n line rest hwaits _ harrived =>
    refine ⟨nofun, fun ⟨m, hlong, hm⟩ => ?_⟩
    rcases Nat.lt_or_ge m n with hlt | hge
    · have := (hwaits m hlt).2
      omega
    · -- the line was at hand by then
      have hle := i.length_arrived_mono hge
      exact absurd ((hopen n).2 (by omega)) (by simp [harrived])
  | @long n hopen' hlong => exact ⟨fun _ => ⟨n, hlong, (hopen n).1 hopen'⟩, fun _ => rfl⟩
  | ended _ hshort =>
    constructor
    · intro h
      split at h <;> cases h
    · rintro ⟨n, hlong, -⟩
      have := (i.arrived_isPrefix n).length_le
      omega

/-! ## Any number of calls -/

/-- What calls leave behind: at hand is the rest of one chunk, or bytes without a full line. -/
structure Tidy (i : Inbox) : Prop where
  sizes : ∀ chunk ∈ i.chunks, chunk.length ≤ maxRead
  buffer : lineFeed ∈ i.buffer → i.buffer.length ≤ maxRead

/-- A read brings no more than `maxRead` bytes. -/
theorem Tidy.length_arrived_succ (h : i.Tidy) (n : Nat) :
    (i.arrived (n + 1)).length ≤ (i.arrived n).length + maxRead := by
  rw [arrived_add, List.length_append]
  refine Nat.add_le_add_left ?_ _
  cases hrest : i.chunks.drop n with
  | nil => simp
  | cons chunk chunks =>
    have hchunk := h.sizes chunk (List.mem_of_mem_drop (hrest ▸ List.mem_cons_self))
    simpa using hchunk

/-- **A call leaves an inbox tidy.** -/
theorem Tidy.reads (h : i.Tidy) (hreads : i.Reads j r) : j.Tidy := by
  have hrest : ∀ n, ∀ chunk ∈ i.chunks.drop n, chunk.length ≤ maxRead :=
    fun n chunk hmem => h.sizes chunk (List.mem_of_mem_drop hmem)
  cases hreads with
  | @line n line rest hwaits hline harrived =>
    refine ⟨hrest n, fun _ => ?_⟩
    have hlength : (i.arrived n).length = line.length + 1 + rest.length := by
      rw [harrived, List.length_append, List.length_cons]
      omega
    cases n with
    | zero =>
      rw [arrived_zero] at harrived hlength
      have hbuffer := h.buffer (by simp [harrived])
      show rest.length ≤ maxRead
      omega
    | succ n =>
      -- all that was at hand before the last read belongs to the line
      have hbefore : (i.arrived n).length ≤ line.length := by
        have happend := (i.arrived_add n 1).symm.trans harrived
        exact length_le_of_append (hwaits n (Nat.lt_succ_self n)).1 happend
      have hlast := h.length_arrived_succ n
      show rest.length ≤ maxRead
      omega
  | long hopen _ => exact ⟨hrest _, fun hmem => absurd hmem hopen⟩
  | ended hopen _ => exact ⟨by simp, fun hmem => absurd hmem hopen⟩

/-- **A read ends behind the limit and within the line**, if the line goes on for so long that one
more read cannot bring the rest of it. -/
theorem Tidy.exists_cut (h : i.Tidy)
    (hlong : maxReplyLine + maxRead ≤ (nextLine i.pending).length) :
    ∃ n, maxReplyLine < (i.arrived n).length ∧
      (i.arrived n).length ≤ (nextLine i.pending).length := by
  by_contra hnone
  have hwithin : ∀ n, (i.arrived n).length ≤ (nextLine i.pending).length →
      (i.arrived n).length ≤ maxReplyLine :=
    fun n hn => Nat.le_of_not_lt fun hlt => hnone ⟨n, hlt, hn⟩
  -- so the limit is never reached
  have key : ∀ n, (i.arrived n).length ≤ maxReplyLine := by
    intro n
    induction n with
    | zero =>
      by_cases hbuffer : lineFeed ∈ i.buffer
      · rw [arrived_zero]
        exact Nat.le_trans (h.buffer hbuffer) (by decide)
      · refine hwithin 0 ((lineFeed_not_mem_iff (i.arrived_isPrefix 0)).1 ?_)
        rwa [arrived_zero]
    | succ n ih =>
      have hnext := h.length_arrived_succ n
      exact hwithin (n + 1) (by omega)
  have hall := key i.chunks.length
  rw [arrived_length] at hall
  have hline := (nextLine_isPrefix i.pending).length_le
  have hpos : 0 < maxRead := by decide
  omega

/-- A call takes the next line, or nothing. -/
theorem Reads.taken (h : i.Reads j r) :
    (∃ line, lineFeed ∉ line ∧ r = .ok (lineText line) ∧
      i.pending = line ++ lineFeed :: j.pending) ∨
    (∃ e, r = .error e) ∧ i.pending = j.pending := by
  cases h with
  | @line n line rest _ hline harrived =>
    refine .inl ⟨line, hline, rfl, ?_⟩
    rw [i.pending_eq n, harrived, List.append_assoc, List.cons_append]
    rfl
  | @long n _ _ => exact .inr ⟨⟨_, rfl⟩, i.pending_eq n⟩
  | ended _ _ => exact .inr ⟨⟨_, rfl⟩, (List.append_nil _).symm⟩

/-- **Calls take the lines they answer with**, one after the other, and leave the inbox tidy. -/
theorem Tidy.readTimes (h : i.Tidy) (n : Nat) :
    let run := OpenRelay.readTimes readLine n i
    run.1.Tidy ∧ ∃ taken, (∀ line ∈ taken, lineFeed ∉ line) ∧
      run.2.filterMap Except.toOption = taken.map lineText ∧
      i.pending = joinLines taken ++ run.1.pending := by
  induction n generalizing i with
  | zero => exact ⟨h, [], by simp, rfl, rfl⟩
  | succ n ih =>
    have hreads := i.reads_readLine
    obtain ⟨htidy, taken, hopen, htexts, hpending⟩ := ih (h.reads hreads)
    refine ⟨htidy, ?_⟩
    rw [OpenRelay.readTimes]
    rcases hreads.taken with ⟨line, hline, hr, hi⟩ | ⟨⟨e, hr⟩, hi⟩
    · refine ⟨line :: taken, List.forall_mem_cons.2 ⟨hline, hopen⟩, ?_, ?_⟩
      · rw [hr, List.map_cons, ← htexts]
        rfl
      · rw [hi, hpending, joinLines_cons, List.append_assoc, List.cons_append]
    · refine ⟨taken, hopen, ?_, hi.trans hpending⟩
      rw [hr]
      exact htexts

end Inbox

/-! ## The limit -/

theorem Arrives.tidy (h : Arrives stream chunks) (closes : Bool) :
    ({ chunks, closes } : Inbox).Tidy :=
  ⟨fun chunk hmem => (h.sizes chunk hmem).2, nofun⟩

/-- **Which lines are refused as too long.** However a stream arrives and however many lines of it
were asked for, the next one is refused if a read ends behind the limit and within it. That cannot
be if it is not longer than lines may be. It has to be if it is longer by a whole read, or if its
line feed never comes and it is longer at all. In between, it depends on the reads. -/
theorem line_limit (h : Arrives stream chunks) (closes : Bool) (n : Nat) :
    let run := readTimes Inbox.readLine n { chunks, closes }
    let i := run.1
    let line := nextLine i.pending
    (∃ taken, (∀ line ∈ taken, lineFeed ∉ line) ∧
      run.2.filterMap Except.toOption = taken.map lineText ∧
      stream = joinLines taken ++ i.pending) ∧
    (i.readLine.2 = .error .longLine ↔
      ∃ k, maxReplyLine < (i.arrived k).length ∧ (i.arrived k).length ≤ line.length) ∧
    (line.length ≤ maxReplyLine → i.readLine.2 ≠ .error .longLine) ∧
    (maxReplyLine + maxRead ≤ line.length → i.readLine.2 = .error .longLine) ∧
    (lineFeed ∉ i.pending →
      (i.readLine.2 = .error .longLine ↔ maxReplyLine < line.length)) := by
  intro run i line
  obtain ⟨htidy, taken, hopen, htexts, hpending⟩ := (h.tidy closes).readTimes n
  have hrefused := Inbox.readLine_eq_longLine_iff (i := i)
  refine ⟨⟨taken, hopen, htexts, h.whole.symm.trans hpending⟩, hrefused, ?_, ?_, ?_⟩
  · intro hshort hlong
    obtain ⟨k, hk, hwithin⟩ := hrefused.1 hlong
    have : (i.arrived k).length ≤ maxReplyLine := Nat.le_trans hwithin hshort
    omega
  · intro hlong
    exact hrefused.2 (htidy.exists_cut hlong)
  · intro hnone
    have hall : line = i.pending := nextLine_eq_self hnone
    constructor
    · intro hlong
      obtain ⟨k, hk, hwithin⟩ := hrefused.1 hlong
      exact Nat.lt_of_lt_of_le hk hwithin
    · intro hlong
      -- by the last read at the latest, all of it is at hand
      refine hrefused.2 ⟨i.chunks.length, ?_⟩
      have hlength : i.pending.length = line.length := congrArg List.length hall.symm
      rw [i.arrived_length, hlength]
      exact ⟨hlong, Nat.le_refl _⟩

/-- The second line of a stream ends within the limit, after a read that ended within the first. -/
theorem line_limit_second :
    let chunks := [[0x32, 0x32], [0x30, 0x0A, 0x32, 0x35], [0x30, 0x0A]]
    let i := (readTimes Inbox.readLine 1 { chunks, closes := true }).1
    Arrives chunks.flatten chunks ∧ nextLine i.pending = [0x32, 0x35, 0x30] ∧
      i.readLine.2 ≠ .error .longLine := by
  intro chunks i
  have harrives : Arrives chunks.flatten chunks := ⟨rfl, by decide⟩
  exact ⟨harrives, by decide, (line_limit harrives true 1).2.2.1 (by decide)⟩

/-! ## In between -/

/-- Bytes that arrive one by one. -/
def drip (bytes : List UInt8) : List (List UInt8) := bytes.map ([·])

theorem flatten_drip (bytes : List UInt8) : (drip bytes).flatten = bytes := by
  rw [drip, ← List.flatMap_def, List.flatMap_singleton']

theorem flatten_take_drip (bytes : List UInt8) (n : Nat) :
    ((drip bytes).take n).flatten = bytes.take n := by
  rw [drip, ← List.map_take]
  exact flatten_drip _

theorem arrives_drip (bytes : List UInt8) : Arrives bytes (drip bytes) :=
  ⟨flatten_drip bytes, by simp [drip, maxRead]⟩

/-- A line that arrives one byte at a time up to the limit, and the rest of it in one read. -/
def rush (line : List UInt8) : List (List UInt8) :=
  drip (line.take maxReplyLine) ++ [line.drop maxReplyLine ++ [lineFeed]]

theorem flatten_rush (line : List UInt8) : (rush line).flatten = line ++ [lineFeed] := by
  rw [rush, List.flatten_append, flatten_drip, List.flatten_singleton, ← List.append_assoc,
    List.take_append_drop]

theorem arrives_rush (h : line.length < maxReplyLine + maxRead) :
    Arrives (line ++ [lineFeed]) (rush line) := by
  refine ⟨flatten_rush line, ?_⟩
  rw [rush, List.forall_mem_append, List.forall_mem_singleton]
  refine ⟨(arrives_drip _).sizes, by simp, ?_⟩
  have hpos : 0 < maxRead := by decide
  rw [List.length_append, List.length_drop, List.length_singleton]
  omega

/-- Byte by byte, a line that is too long is refused as soon as it is. -/
theorem readLine_drip (hopen : lineFeed ∉ line) (hlong : maxReplyLine < line.length)
    (closes : Bool) :
    ({ chunks := drip (line ++ [lineFeed]), closes } : Inbox).readLine.2 = .error .longLine := by
  refine Inbox.readLine_eq_longLine_iff.2 ⟨line.length, ?_⟩
  have harrived : ({ chunks := drip (line ++ [lineFeed]), closes } : Inbox).arrived line.length =
      line := by
    rw [Inbox.arrived, List.nil_append, flatten_take_drip, List.take_left]
  have hpending : ({ chunks := drip (line ++ [lineFeed]), closes } : Inbox).pending =
      line ++ [lineFeed] := flatten_drip _
  rw [harrived, hpending, nextLine_append hopen]
  exact ⟨hlong, Nat.le_refl _⟩

/-- A line of which one read brings all that is behind the limit is read, however long it is. -/
theorem readLine_rush (hopen : lineFeed ∉ line) (closes : Bool) :
    ({ chunks := rush line, closes } : Inbox).readLine.2 = .ok (lineText line) := by
  have hpending : ({ chunks := rush line, closes } : Inbox).pending = line ++ [lineFeed] :=
    flatten_rush line
  have hfits : ({ chunks := rush line, closes } : Inbox).readLine.2 ≠ .error .longLine := by
    intro h
    obtain ⟨k, hk, hwithin⟩ := Inbox.readLine_eq_longLine_iff.1 h
    rw [hpending, nextLine_append hopen, Inbox.arrived, List.nil_append] at hwithin
    rw [Inbox.arrived, List.nil_append] at hk
    by_cases hle : k ≤ (drip (line.take maxReplyLine)).length
    · -- up to the limit
      rw [rush, List.take_append_of_le_length hle, flatten_take_drip, List.length_take,
        List.length_take] at hk
      omega
    · -- the last read has brought the line feed
      have hall : (rush line).take k = rush line :=
        List.take_of_length_le (by rw [rush, List.length_append, List.length_singleton]; omega)
      rw [hall, flatten_rush, List.length_append, List.length_singleton] at hwithin
      omega
  obtain ⟨j, hread, -⟩ := Inbox.readLine_next hopen hfits hpending
  rw [hread]

/-- **A line that is longer than the limit is read**, though the same line is refused if it arrives
byte by byte. -/
theorem long_line_read :
    let line := List.replicate (maxReplyLine + 1) 0x32
    maxReplyLine < (nextLine (line ++ [lineFeed])).length ∧
    (Arrives (line ++ [lineFeed]) (rush line) ∧
      ({ chunks := rush line, closes := true } : Inbox).readLine.2 = .ok (lineText line)) ∧
    Arrives (line ++ [lineFeed]) (drip (line ++ [lineFeed])) ∧
      ({ chunks := drip (line ++ [lineFeed]), closes := true } : Inbox).readLine.2 =
        .error .longLine := by
  intro line
  have hopen : lineFeed ∉ line := by simp [line, lineFeed]
  have hlength : line.length = maxReplyLine + 1 := List.length_replicate
  have hshort : line.length < maxReplyLine + maxRead := by
    rw [hlength]
    exact Nat.add_lt_add_left (by decide) _
  refine ⟨?_, ⟨arrives_rush hshort, readLine_rush hopen true⟩, arrives_drip _,
    readLine_drip hopen (by omega) true⟩
  rw [nextLine_append hopen]
  omega

end OpenRelay
