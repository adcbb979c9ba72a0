import OpenRelay.Proofs.Smtp.Inbox
import OpenRelay.Proofs.Text.Lines
import OpenRelay.Proofs.Text.Utf8

/-!
# Replies from a text and from a connection

A reply can be read from a text, whose lines are cut off at its characters, or from a connection,
whose lines are cut off at its bytes before they are decoded. Both readings come to the same.

* `dropReturnByte_encode`: the carriage return before a line feed is the same in both.
* `Draft.readFrom_eq`: a draft takes the same lines from both.
* `readers_agree`: a text that ends with a line feed makes the same reply, or fails for the same
  fault, when it is sent over a connection in any chunks.
-/

namespace OpenRelay

variable {s : String} {chunks lines : List (List UInt8)} {texts : List (List Char)} {d : Draft}

/-! ## Lines -/

/-- **A carriage return that ends a line** is spelled by the byte that ends it. -/
theorem dropReturnByte_encode (line : List Char) :
    dropReturnByte (Text.Utf8.encode line) = Text.Utf8.encode (Text.dropReturn line) := by
  rcases List.eq_nil_or_concat line with rfl | ⟨front, c, rfl⟩
  · rfl
  have hsplit : Text.Utf8.encode (front ++ [c]) =
      Text.Utf8.encode front ++ String.utf8EncodeChar c := by
    simp [Text.Utf8.encode]
  rw [List.concat_eq_append]
  have hreturn : String.utf8EncodeChar '\r' = [0x0D] := by decide
  by_cases hc : c = '\r'
  · subst hc
    rw [dropReturnByte, hsplit, hreturn, List.getLast?_concat, if_pos rfl, List.dropLast_concat,
      Text.dropReturn_concat]
  · have hlast : (Text.Utf8.encode (front ++ [c])).getLast? ≠ some 0x0D := by
      intro h
      have hmem : (0x0D : UInt8) ∈ String.utf8EncodeChar c := by
        rw [hsplit, List.getLast?_append, Option.or_of_isSome (by simp)] at h
        exact List.mem_of_getLast? h
      exact hc (Text.Utf8.eq_of_mem_encodeChar hreturn (by decide) hmem)
    rw [dropReturnByte, if_neg hlast, Text.dropReturn_of_ne hc]

/-- **The lines of a text are those of its bytes**, if it ends with a line feed. -/
theorem map_lineText_fullLines {cs : List Char} (hends : ∀ c ∈ cs.getLast?, c = '\n') :
    (fullLines (Text.Utf8.encode cs)).map lineText = (Text.lines cs).map String.ofList := by
  rcases List.eq_nil_or_concat cs with rfl | ⟨front, c, rfl⟩
  · rfl
  rw [List.concat_eq_append] at hends ⊢
  obtain rfl := hends c (by simp)
  have hpieces : (Text.Utf8.encode (front ++ ['\n'])).splitOn lineFeed =
      ((front.splitOn '\n').map Text.Utf8.encode) ++ [[]] := by
    have hfeed : String.utf8EncodeChar '\n' = [0x0A] := by decide
    rw [lineFeed, Text.Utf8.splitOn_encode hfeed (by decide),
      List.splitOn_append_cons_self, List.map_append]
    rfl
  rw [fullLines, hpieces, List.dropLast_concat, Text.lines_concat, List.map_map, List.map_map]
  refine List.map_congr_left fun line _ => ?_
  rw [Function.comp_apply, Function.comp_apply, lineText, dropReturnByte_encode,
    Text.Utf8.decodeLossy_encode]

/-! ## Drafts -/

/-- A fault in a text as it shows on a connection that brings the text and is closed. -/
def ReplyError.onConnection : ReplyError → ReplyError
  | .incomplete => .closed
  | e => e

theorem ReplyError.onConnection_of_malformed {e : ReplyError} (h : e.kind = .malformed) :
    e.onConnection = e := by
  cases e with
  | incomplete => cases h
  | _ => rfl

/-- A line is refused for what it says, not for its end. -/
theorem ReplyError.malformed_of_refusesLine {e : ReplyError} (h : e.refusesLine = true) :
    e.kind = .malformed := by
  cases e with
  | shortLine | badCode | mixedCodes | tooManyLines => rfl
  | noLine | incomplete | longLine | timedOut | closed => cases h

/-- Both readings end with faults of one sort. -/
theorem ReplyError.kind_onConnection (e : ReplyError) : e.onConnection.kind = e.kind := by
  cases e <;> rfl

/-- **A draft takes the same lines from both.** -/
theorem Draft.readFrom_eq (h : lines.map lineText = texts.map String.ofList) :
    (d.readFrom lines).2 = (d.readLines texts).mapError ReplyError.onConnection := by
  induction lines generalizing d texts with
  | nil =>
    cases texts with
    | nil => rfl
    | cons text texts => cases h
  | cons line lines ih =>
    cases texts with
    | nil => cases h
    | cons text texts =>
      obtain ⟨hline, hlines⟩ := List.cons.inj h
      rw [readFrom, readLines, show lineText line = String.ofList text from hline]
      generalize hpush : d.push (String.ofList text) = pushed
      obtain ⟨d', e | final⟩ := pushed
      · -- a line is refused for a fault of its own
        have he : e.refusesLine = true := by
          rcases d.push_cases text with ⟨e', hpush', he'⟩ | ⟨code, hcode, hd, hroom⟩
          · rw [hpush] at hpush'
            cases hpush'
            exact he'
          · rw [push_of_spells hcode hd hroom] at hpush
            cases hpush
        simp [Except.mapError, ReplyError.onConnection_of_malformed
          (ReplyError.malformed_of_refusesLine he)]
      · cases final with
        | true =>
          dsimp only
          unfold finish
          cases d'.code <;> rfl
        | false => exact ih hlines

/-! ## Replies -/

/-- What a connection brings is what the text says. -/
theorem Arrives.readReply_eq (harrives : Arrives (Text.Utf8.encode s.toList) chunks)
    (hends : ∀ c ∈ s.toList.getLast?, c = '\n')
    (hshort : ∀ line ∈ (Text.Utf8.encode s.toList).splitOn lineFeed,
      line.length ≤ maxReplyLine) :
    ({ chunks, closes := true } : Inbox).readReply.2 =
      (Reply.read s).mapError ReplyError.onConnection := by
  rw [(harrives.carries hshort).readReply.1, Reply.read]
  exact Draft.readFrom_eq (map_lineText_fullLines hends)

/-- **The two readings agree.** A text that is empty or ends with a line feed, and has no line that
is too long, is sent over a connection, which is closed behind it. In whatever chunks it arrives, the
reply read first is the one that the text is read as; or both readings refuse it for the same fault,
and so with the same words; or both find that it ends too early. -/
theorem readers_agree (hends : ∀ c ∈ s.toList.getLast?, c = '\n')
    (harrives : Arrives (Text.Utf8.encode s.toList) chunks)
    (hshort : ∀ line ∈ (Text.Utf8.encode s.toList).splitOn lineFeed,
      line.length ≤ maxReplyLine) :
    let received := ({ chunks, closes := true } : Inbox).readReply.2
    (∀ r, received = .ok r ↔ Reply.read s = .ok r) ∧
      (∀ e, e.kind = .malformed → (received = .error e ↔ Reply.read s = .error e)) ∧
      ((∃ e, received = .error e ∧ e.kind = .ended) ↔
        ∃ e, Reply.read s = .error e ∧ e.kind = .ended) := by
  intro received
  have hreceived : received = (Reply.read s).mapError ReplyError.onConnection :=
    harrives.readReply_eq hends hshort
  cases hread : Reply.read s with
  | ok r =>
    rw [hread, Except.mapError] at hreceived
    simp [hreceived]
  | error e =>
    rw [hread, Except.mapError] at hreceived
    refine ⟨by simp [hreceived], fun e' he' => ?_, ?_⟩
    · rw [hreceived, Except.error.injEq, Except.error.injEq]
      constructor
      · rintro rfl
        exact (ReplyError.onConnection_of_malformed (e.kind_onConnection ▸ he')).symm
      · rintro rfl
        exact ReplyError.onConnection_of_malformed he'
    · simp [hreceived, ReplyError.kind_onConnection]

/-- A reply of two lines, in chunks that end within a character and within a line ending, and one
whose lines have two codes. -/
theorem readers_agree_cut :
    let received chunks := ({ chunks, closes := true } : Inbox).readReply.2
    received [[0x32, 0x32, 0x30, 0x2D, 0xC3], [0xA9, 0x0D], [0x0A, 0x32, 0x32, 0x30, 0x0A]] =
        .ok { code := 220, text := "\u00E9\n" } ∧
      received [[0x32, 0x35, 0x30, 0x2D, 0x0A, 0x32], [0x35, 0x31, 0x0A]] =
        .error (.mixedCodes 250 251) := by
  intro received
  constructor
  · exact ((readers_agree (s := "220-\u00E9\r\n220\n") (by simp)
      ⟨by decide +kernel, by decide⟩ (by decide +kernel)).1 _).2 rfl
  · exact ((readers_agree (s := "250-\n251\n") (by simp)
      ⟨by decide +kernel, by decide⟩ (by decide +kernel)).2.1 _ rfl).2 rfl

end OpenRelay
