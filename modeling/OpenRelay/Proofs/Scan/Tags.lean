import OpenRelay.Command.Outcome
import OpenRelay.Proofs.Conversation.Injection
import OpenRelay.Proofs.Scan.Secure
import OpenRelay.Proofs.Scan.Tally
import OpenRelay.Proofs.Text.Lines

/-!
# The tags of a report and its counts

The tag of a host is the first that fits, while the counts are taken one by one. A host that could
not be reached, say, would count as such even if something else were said about it. In a scan both
come out the same, line by line. But a report is read as it is printed: a line feed in a rule, in a
name or in a failure ends a line early, and what follows it may begin with a tag.

* `printedLines`: the lines of a printed text.
* `blocks`: lines as they are read, a tagged line and the indented ones under it.
* `Report.Reads`: what is read in the lines of a report.
* `HostRecord.FeedFree`: the texts that are printed of a host hold no line feed.
* `tags_agree`: which printed reports read so.
* `line_feed_forges_tags`: a report with more tags than relays.
-/

namespace OpenRelay

/-! ## How lines are read -/

namespace Tag

/-- All states. -/
def all : List Tag := [.relay, .fatal, .skipped, .closed, .secure]

theorem mem_all (t : Tag) : t ∈ all := by cases t <;> decide

/-- Whether a line begins with the mark of this state. -/
def marks (t : Tag) (line : String) : Bool := t.mark.toList.isPrefixOf line.toList

theorem marks_line (t : Tag) (h : HostRecord) : t.marks h.line = decide (h.tag = t) := by
  rw [Bool.eq_iff_iff, marks, List.isPrefixOf_iff_prefix, h.starts_mark_iff, decide_eq_true_iff]

end Tag

/-- The lines of a text. Each of them ends with a line feed. -/
def printedLines (text : String) : List String :=
  (Text.pieces '\n' text.toList).dropLast.map String.ofList

/-- Whether a line begins with a mark. -/
def isTagged (line : String) : Bool := Tag.all.any (·.marks line)

/-- Whether a line is indented as far as the text behind a tag. -/
def isIndented (line : String) : Bool := "          ".toList.isPrefixOf line.toList

/-- The tagged lines, each with the indented lines that follow it. -/
def blocks : List String → List (String × List String)
  | [] => []
  | line :: rest =>
    if isTagged line then (line, rest.takeWhile isIndented) :: blocks rest else blocks rest

variable {line text : String} {lines rest : List String} {block : String × List String}

theorem head_of_isTagged (h : isTagged line = true) : line.toList.head? = some '[' := by
  obtain ⟨t, -, ht⟩ := List.any_eq_true.1 h
  obtain ⟨text, htext⟩ := List.isPrefixOf_iff_prefix.1 ht
  rw [← htext]
  cases t <;> rfl

theorem head_of_isIndented (h : isIndented line = true) : line.toList.head? = some ' ' := by
  obtain ⟨text, htext⟩ := List.isPrefixOf_iff_prefix.1 h
  rw [← htext]
  rfl

theorem isTagged_of_isIndented (h : isIndented line = true) : isTagged line = false := by
  by_contra htagged
  have hhead := head_of_isTagged (Bool.not_eq_false _ ▸ htagged)
  rw [head_of_isIndented h] at hhead
  cases hhead

theorem blocks_append (h : ∀ line ∈ lines, isTagged line = false) :
    blocks (lines ++ rest) = blocks rest := by
  induction lines with
  | nil => rfl
  | cons line lines ih =>
    obtain ⟨hline, hlines⟩ := List.forall_mem_cons.1 h
    rw [List.cons_append, blocks, hline, if_neg Bool.false_ne_true, ih hlines]

/-- What is read under a tagged line is a line as well. -/
theorem mem_of_mem_blocks (h : block ∈ blocks lines) (hline : line ∈ block.2) : line ∈ lines := by
  induction lines with
  | nil => cases h
  | cons first rest ih =>
    rw [blocks] at h
    split at h
    · rcases List.mem_cons.1 h with rfl | h
      · exact List.mem_cons_of_mem _ (List.takeWhile_subset _ hline)
      · exact List.mem_cons_of_mem _ (ih h)
    · exact List.mem_cons_of_mem _ (ih h)

theorem feed_not_mem_of_mem_printedLines (h : line ∈ printedLines text) : '\n' ∉ line.toList := by
  obtain ⟨piece, hpiece, rfl⟩ := List.mem_map.1 h
  rw [String.toList_ofList]
  exact Text.not_mem_of_mem_pieces (List.dropLast_subset _ hpiece)

/-! ## The lines of a report -/

theorem isTagged_line (h : HostRecord) : isTagged h.line = true :=
  List.any_eq_true.2 ⟨h.tag, h.tag.mem_all, by simp [Tag.marks_line]⟩

theorem isIndented_line (a : Attempt) : isIndented a.line = true := by
  have hstart : "          rule ".toList = "          ".toList ++ "rule ".toList := by decide +kernel
  unfold isIndented Attempt.line
  simp only [List.isPrefixOf_iff_prefix, String.toList_append, List.append_assoc, toString, hstart]
  exact List.prefix_append _ _

/-- The lines of a host are read as one block. -/
theorem blocks_lines (h : HostRecord) (hrest : rest.takeWhile isIndented = []) :
    blocks (h.lines ++ rest) = (h.line, h.passed.map Attempt.line) :: blocks rest := by
  have hindented : ∀ line ∈ h.passed.map Attempt.line, isIndented line = true :=
    List.forall_mem_map.2 fun a _ => isIndented_line a
  have hplain : ∀ line ∈ h.passed.map Attempt.line, isTagged line = false :=
    fun line hline => isTagged_of_isIndented (hindented line hline)
  rw [HostRecord.lines, List.cons_append, blocks, if_pos (isTagged_line h), blocks_append hplain,
    List.takeWhile_append_of_pos hindented, hrest, List.append_nil]

theorem filter_isTagged_lines (h : HostRecord) : h.lines.filter isTagged = [h.line] := by
  have hnone : (h.passed.map Attempt.line).filter isTagged = [] :=
    List.filter_eq_nil_iff.2 <| List.forall_mem_map.2 fun a _ =>
      Bool.not_eq_true _ ▸ isTagged_of_isIndented (isIndented_line a)
  rw [HostRecord.lines, List.filter_cons_of_pos (isTagged_line h), hnone]

namespace Report

/-- The lines of a report on all of its hosts. -/
def written (r : Report) : List String := r.hosts.flatMap HostRecord.lines ++ r.closing

/-- The lines behind the hosts begin with a digit or with a letter. -/
theorem head_closing (r : Report) : ∀ line ∈ r.closing,
    ∃ c, line.toList.head? = some c ∧ c ≠ '[' ∧ c ≠ ' ' := by
  have htally : ∃ c, (toString r.tally).toList.head? = some c ∧ c ≠ '[' ∧ c ≠ ' ' := by
    obtain ⟨text, htext⟩ : ∃ text : List Char,
        (toString r.tally).toList = (toString r.tally.hosts).toList ++ text := ⟨_, by
      show r.tally.toString.toList = _
      simp only [Tally.toString, String.toList_append, List.append_assoc]
      rfl⟩
    cases hnumber : (toString r.tally.hosts).toList with
    | nil => simp [Nat.repr, Nat.toDigits_ne_nil] at hnumber
    | cons c cs =>
      have hdigit : c.isDigit = true :=
        isDigit_of_mem_toString (n := r.tally.hosts) (hnumber ▸ List.mem_cons_self)
      refine ⟨c, by rw [htext, hnumber]; rfl, ?_, ?_⟩ <;> rintro rfl <;> cases hdigit
  intro line hline
  unfold closing at hline
  split at hline
  · rcases List.mem_pair.1 hline with rfl | rfl
    · exact htally
    · exact ⟨'s', by decide⟩
  · obtain rfl := List.mem_singleton.1 hline
    exact htally

theorem isTagged_closing (r : Report) : ∀ line ∈ r.closing, isTagged line = false := by
  intro line hline
  by_contra htagged
  obtain ⟨c, hhead, hc, -⟩ := r.head_closing line hline
  rw [head_of_isTagged (Bool.not_eq_false _ ▸ htagged)] at hhead
  exact hc (Option.some.inj hhead).symm

theorem isIndented_closing (r : Report) : ∀ line ∈ r.closing, isIndented line = false := by
  intro line hline
  by_contra hindented
  obtain ⟨c, hhead, -, hc⟩ := r.head_closing line hline
  rw [head_of_isIndented (Bool.not_eq_false _ ▸ hindented)] at hhead
  exact hc (Option.some.inj hhead).symm

/-- No indented line comes first. -/
theorem takeWhile_isIndented (r : Report) (rows : List HostRecord) :
    (rows.flatMap HostRecord.lines ++ r.closing).takeWhile isIndented = [] := by
  cases rows with
  | nil =>
    have hfirst : ¬ isIndented (toString r.tally) = true := by
      rw [r.isIndented_closing _ List.mem_cons_self]
      exact Bool.false_ne_true
    exact List.takeWhile_cons_of_neg hfirst
  | cons h rows =>
    have hfirst : ¬ isIndented h.line = true := fun hindented => by
      have htagged := isTagged_line h
      rw [isTagged_of_isIndented hindented] at htagged
      cases htagged
    exact List.takeWhile_cons_of_neg hfirst

/-- **A report is read host by host**: each has one block, with the attempts that went through. -/
theorem blocks_written (r : Report) :
    blocks r.written = r.hosts.map fun h => (h.line, h.passed.map Attempt.line) := by
  have hrows (rows : List HostRecord) : blocks (rows.flatMap HostRecord.lines ++ r.closing) =
      rows.map fun h => (h.line, h.passed.map Attempt.line) := by
    induction rows with
    | nil =>
      have hclosing : blocks (r.closing ++ []) = blocks [] := blocks_append r.isTagged_closing
      rwa [List.append_nil] at hclosing
    | cons h rows ih =>
      rw [List.flatMap_cons, List.append_assoc, blocks_lines h (r.takeWhile_isIndented rows), ih,
        List.map_cons]
  exact hrows r.hosts

theorem filter_isTagged_written (r : Report) :
    r.written.filter isTagged = r.hosts.map HostRecord.line := by
  have hclosing : r.closing.filter isTagged = [] :=
    List.filter_eq_nil_iff.2 fun line hline => Bool.not_eq_true _ ▸ r.isTagged_closing line hline
  rw [written, List.filter_append, hclosing, List.append_nil, List.filter_flatMap,
    List.map_eq_flatMap]
  simp only [filter_isTagged_lines]

/-- A mark is found once for each host in its state. -/
theorem countP_marks_written (r : Report) (t : Tag) :
    r.written.countP t.marks = r.hosts.countP fun h => h.tag = t := by
  have htagged : ∀ line, t.marks line = true → isTagged line = true :=
    fun line hline => List.any_eq_true.2 ⟨t, t.mem_all, hline⟩
  have hfilter : r.written.countP t.marks = (r.written.filter isTagged).countP t.marks := by
    rw [List.countP_filter]
    refine List.countP_congr fun line _ => ?_
    rw [Bool.and_eq_true, and_iff_left_of_imp (htagged line)]
  rw [hfilter, r.filter_isTagged_written, List.countP_map]
  refine List.countP_congr fun h _ => ?_
  rw [Function.comp_apply, Tag.marks_line]

end Report

/-! ## The tags of hosts -/

namespace HostRecord

variable {s : Settings} {h : HostRecord}

/-- Nothing went wrong with a host that is cancelled. -/
theorem Stands.isFatal_of_cancelled (hs : h.Stands s) (hcancelled : h.cancelled = true) :
    h.isFatal = false := by
  have hall : ∀ f ∈ Flags.known, f.cancelled = true → (f.fatal || f.fatalError) = false := by decide
  exact hall h.flags hs.flags_mem hcancelled

/-- A host without a connection could not be reached if nothing else is said about it. -/
theorem Stands.isUnreachable_iff (hs : h.Stands s) : h.isUnreachable = true ↔
    h.isFatal = false ∧ h.cancelled = false ∧ h.smtpOpen = false := by
  have hall : ∀ f ∈ Flags.known, (!f.smtpOpen && (f.visited && !f.cancelled)) = true ↔
      (f.fatal || f.fatalError) = false ∧ f.cancelled = false ∧ f.smtpOpen = false := by decide
  exact hall h.flags hs.flags_mem

theorem fatal_iff (h : HostRecord) : h.tag = .fatal ↔ (h.isFatal && !h.isVulnerable) = true := by
  rw [h.tag_eq_iff, Fits, Bool.and_eq_true, Bool.not_eq_true', and_comm]

theorem Stands.skipped_iff (hs : h.Stands s) :
    h.tag = .skipped ↔ (h.cancelled && !h.isVulnerable) = true := by
  rw [h.tag_eq_iff, Fits, Bool.and_eq_true, Bool.not_eq_true', and_comm (a := h.cancelled = true)]
  exact and_congr_right' (and_iff_right_of_imp hs.isFatal_of_cancelled)

theorem Stands.closed_iff (hs : h.Stands s) : h.tag = .closed ↔ h.isUnreachable = true := by
  rw [h.tag_eq_iff, Fits, hs.isUnreachable_iff]
  refine and_iff_right_of_imp fun hclosed => ?_
  by_contra hrelays
  have hopen := hs.smtpOpen_of_isVulnerable (Bool.not_eq_false _ ▸ hrelays)
  rw [hclosed.2.2] at hopen
  cases hopen

end HostRecord

/-! ## The report -/

/-- What is read in lines that report on a scan. -/
structure Report.Reads (r : Report) (lines : List String) : Prop where
  /-- Each host has one tagged line, in the order of the scan. -/
  tagged : lines.filter isTagged = r.hosts.map HostRecord.line
  /-- The indented lines under it are those of its attempts that went through. -/
  blocks : blocks lines = r.hosts.map fun h => (h.line, h.passed.map Attempt.line)
  relay : lines.countP Tag.relay.marks = r.tally.vulnerable
  closed : lines.countP Tag.closed.marks = r.tally.unreachable
  fatal : lines.countP Tag.fatal.marks =
    r.hosts.countP fun h => h.isFatal && !h.isVulnerable
  skipped : lines.countP Tag.skipped.marks =
    r.hosts.countP fun h => h.cancelled && !h.isVulnerable
  /-- All other hosts are called secure. -/
  rest : lines.countP Tag.relay.marks + lines.countP Tag.fatal.marks +
    lines.countP Tag.skipped.marks + lines.countP Tag.closed.marks +
    lines.countP Tag.secure.marks = r.tally.hosts

theorem Report.reads_written {s : Settings} {r : Report} (h : ∀ h ∈ r.hosts, h.Stands s) :
    r.Reads r.written where
  tagged := r.filter_isTagged_written
  blocks := r.blocks_written
  relay := by
    rw [r.countP_marks_written]
    exact List.countP_congr fun host _ => by
      rw [decide_eq_true_iff, host.tag_eq_iff, HostRecord.Fits]
  closed := by
    rw [r.countP_marks_written]
    exact List.countP_congr fun host hmem => by rw [decide_eq_true_iff, (h host hmem).closed_iff]
  fatal := by
    rw [r.countP_marks_written]
    exact List.countP_congr fun host _ => by rw [decide_eq_true_iff, host.fatal_iff]
  skipped := by
    rw [r.countP_marks_written]
    exact List.countP_congr fun host hmem => by rw [decide_eq_true_iff, (h host hmem).skipped_iff]
  rest := by
    have hone := countP_eq_sum_countP (l := r.hosts) (p := fun _ => true)
      (Tag.all.map fun t h => decide (h.tag = t)) fun host _ => by
        show 1 = (Tag.all.map fun t => (decide (host.tag = t)).toNat).sum
        cases host.tag <;> rfl
    simp only [r.countP_marks_written]
    simpa [Tag.all, tally, Nat.add_assoc] using hone.symm

/-! ## Line feeds -/

theorem toList_unlines_cons (line : String) (lines : List String) :
    (unlines (line :: lines)).toList = line.toList ++ '\n' :: (unlines lines).toList := by
  have hfeed : ("\n").toList = ['\n'] := by decide
  simp only [unlines, List.map_cons, String.join_cons, String.toList_append, hfeed,
    List.append_assoc, List.singleton_append]

/-- Lines without line feeds are the pieces of the text that they make up. -/
theorem pieces_unlines (h : ∀ line ∈ lines, '\n' ∉ line.toList) :
    Text.pieces '\n' (unlines lines).toList = lines.map String.toList ++ [[]] := by
  induction lines with
  | nil => rfl
  | cons line lines ih =>
    obtain ⟨hline, hlines⟩ := List.forall_mem_cons.1 h
    rw [toList_unlines_cons, Text.pieces_append hline, ih hlines, List.map_cons, List.cons_append]

/-- So they are printed as they are. -/
theorem printedLines_unlines (h : ∀ line ∈ lines, '\n' ∉ line.toList) :
    printedLines (unlines lines) = lines := by
  rw [printedLines, pieces_unlines h, List.dropLast_concat, List.map_map]
  exact (List.map_congr_left fun line _ => String.ofList_toList).trans (List.map_id lines)

/-- The texts that are printed of a host, beside words and numbers, hold no line feed. -/
structure HostRecord.FeedFree (h : HostRecord) : Prop where
  name : ∀ name ∈ h.hostname, '\n' ∉ name.toList
  /-- A failure is printed of a host that broke off or could not be reached. -/
  error : h.tag = .fatal ∨ h.tag = .closed → ∀ text ∈ h.error, '\n' ∉ text.toList
  /-- A rule is printed if it relayed. -/
  rules : ∀ a ∈ h.passed, '\n' ∉ a.rule.helo.toList ∧ '\n' ∉ a.rule.mailFrom.toList ∧
    '\n' ∉ a.rule.rcptTo.toList

theorem feed_not_mem_digits (n : Nat) : '\n' ∉ Nat.toDigits 10 n := by
  have hnumber := (oneLine_toString n).feed_not_mem
  rwa [Nat.toString_eq_repr, Nat.toList_repr] at hnumber

/-- A text is written as it is. -/
theorem toString_text (s : String) : toString s = s := rfl

theorem Attempt.feed_not_mem_line (a : Attempt) : '\n' ∉ a.line.toList ↔
    '\n' ∉ a.rule.helo.toList ∧ '\n' ∉ a.rule.mailFrom.toList ∧ '\n' ∉ a.rule.rcptTo.toList := by
  unfold Attempt.line
  simp [String.toList_append, toString_text, feed_not_mem_digits]

namespace HostRecord

theorem feed_not_mem_title (h : HostRecord) : '\n' ∉ h.title.toList ↔
    ∀ name ∈ h.hostname, '\n' ∉ name.toList := by
  have haddress := (oneLine_address h.address).feed_not_mem
  unfold title
  cases h.hostname <;> simp [String.toList_append, haddress]

theorem feed_not_mem_remark (h : HostRecord) : '\n' ∉ h.remark.toList ↔
    (h.tag = .fatal ∨ h.tag = .closed → ∀ text ∈ h.error, '\n' ∉ text.toList) := by
  unfold remark
  cases h.tag with
  | relay => simp [String.toList_append, toString_text, feed_not_mem_digits]
  | fatal | closed => cases h.error <;> simp [String.toList_append]
  | skipped => simp
  | secure =>
    by_cases htemporary : 0 < h.temporary <;>
      simp [String.toList_append, toString_text, feed_not_mem_digits, htemporary]

/-- The lines of a host hold line feeds only if these texts do. -/
theorem feedFree_iff (h : HostRecord) : h.FeedFree ↔ ∀ line ∈ h.lines, '\n' ∉ line.toList := by
  have hlabel : '\n' ∉ h.tag.label.toList := by cases h.tag <;> decide
  have hline : '\n' ∉ h.line.toList ↔ '\n' ∉ h.title.toList ∧ '\n' ∉ h.remark.toList := by
    simp [line, String.toList_append, hlabel]
  rw [lines, List.forall_mem_cons, List.forall_mem_map, hline, h.feed_not_mem_title,
    h.feed_not_mem_remark]
  simp only [Attempt.feed_not_mem_line]
  constructor
  · intro hfree
    exact ⟨⟨hfree.name, hfree.error⟩, hfree.rules⟩
  · rintro ⟨⟨hname, herror⟩, hrules⟩
    exact ⟨hname, herror, hrules⟩

end HostRecord

namespace Report

theorem feed_not_mem_closing (r : Report) : ∀ line ∈ r.closing, '\n' ∉ line.toList := by
  have htally : '\n' ∉ (toString r.tally).toList := by
    show '\n' ∉ r.tally.toString.toList
    simp [Tally.toString, String.toList_append, toString_text, feed_not_mem_digits]
  unfold closing
  rw [List.forall_mem_cons]
  refine ⟨htally, ?_⟩
  split
  · exact List.forall_mem_singleton.2 (by decide)
  · exact nofun

/-- **A printed report reads right exactly if no text in it holds a line feed.** -/
theorem reads_printed_iff {s : Settings} {r : Report} (hstands : ∀ h ∈ r.hosts, h.Stands s) :
    r.Reads (printedLines (unlines r.written)) ↔ ∀ h ∈ r.hosts, h.FeedFree := by
  constructor
  · intro hreads h hmem
    -- every line of the host is read somewhere, and all that is read are lines of the text
    have hline : h.line ∈ printedLines (unlines r.written) := by
      have hmem' : h.line ∈ r.hosts.map HostRecord.line := List.mem_map_of_mem hmem
      rw [← hreads.tagged] at hmem'
      exact List.mem_of_mem_filter hmem'
    have hblock : (h.line, h.passed.map Attempt.line) ∈
        OpenRelay.blocks (printedLines (unlines r.written)) := by
      rw [hreads.blocks]
      exact List.mem_map_of_mem hmem
    rw [h.feedFree_iff, HostRecord.lines, List.forall_mem_cons]
    exact ⟨feed_not_mem_of_mem_printedLines hline,
      fun _ hrule => feed_not_mem_of_mem_printedLines (mem_of_mem_blocks hblock hrule)⟩
  · intro hfree
    have hplain : ∀ line ∈ r.written, '\n' ∉ line.toList := by
      intro line hline
      rcases List.mem_append.1 hline with hline | hline
      · obtain ⟨h, hmem, hline⟩ := List.mem_flatMap.1 hline
        exact h.feedFree_iff.1 (hfree h hmem) line hline
      · exact r.feed_not_mem_closing line hline
    rw [printedLines_unlines hplain]
    exact reads_written hstands

end Report

namespace Execution.On

variable {t : Targets} {x : Execution t} {s : Settings} {net : Network} {h : HostRecord}

/-- What is tried with a host are rules of the scan, expanded for it. -/
theorem rule_mem (hx : x.On s net) (hmem : h ∈ x.report.hosts) :
    ∀ a ∈ h.attempts, (a.rule, a.ruleIndex) ∈ s.rulesFor h := by
  intro a ha
  cases hx.source hmem with
  | vanished => cases ha
  | unstarted abandoned index address =>
    obtain ⟨-, -, hnone⟩ := Dispatch.untried_unstarted abandoned index address
    rw [hnone] at ha
    cases ha
  | checked hchecks =>
    obtain ⟨rfl, rfl⟩ := Prod.mk.inj hchecks.place_eq
    exact hchecks.attempted.2.subset
      (List.mem_map_of_mem (f := fun a => (a.rule, a.ruleIndex)) ha)

/-- Rules that can be sent bring no line feed into a report. -/
theorem feedFree (hx : x.On s net) (hs : s.OneLine) (hmem : h ∈ x.report.hosts)
    (hname : ∀ name ∈ h.hostname, OneLine name) (herror : ∀ text ∈ h.error, OneLine text) :
    h.FeedFree where
  name name hname' := (hname name hname').feed_not_mem
  error _ text herror' := (herror text herror').feed_not_mem
  rules a ha := by
    obtain ⟨hhelo, hmailFrom, hrcptTo⟩ :=
      hs.rulesFor hname _ (hx.rule_mem hmem a (List.mem_of_mem_filter ha))
    exact ⟨hhelo.feed_not_mem, hmailFrom.feed_not_mem, hrcptTo.feed_not_mem⟩

end Execution.On

/-- **The tags of a report agree with its counts** if no rule, name or failure that is printed holds a
line feed, and only then. This is what people read of a scan if they ask for all hosts and for more
than addresses. Rules that can be sent hold none, so then it is up to the names and the failures. -/
theorem tags_agree {t : Targets} {x : Execution t} {s : Settings} {net : Network} {a : Arguments}
    (hx : x.On s net) (hall : a.vulnerableOnly = false) (hfull : a.ipsOnly = false) :
    (x.report.Reads (printedLines (a.write x.report .human)) ↔
        ∀ h ∈ x.report.hosts, h.FeedFree) ∧
      (s.OneLine →
        (∀ h ∈ x.report.hosts, (∀ name ∈ h.hostname, OneLine name) ∧
          ∀ text ∈ h.error, OneLine text) →
        x.report.Reads (printedLines (a.write x.report .human))) := by
  have htext : a.write x.report .human = unlines x.report.written := by
    have hrows : a.rows x.report = x.report.hosts := by simp [Arguments.rows, hall]
    rw [Arguments.write, Arguments.human, if_neg (by simp [hfull]), hrows]
    rfl
  have hiff := Report.reads_printed_iff hx.stands
  rw [← htext] at hiff
  refine ⟨hiff, fun hs htexts => hiff.2 fun h hmem => ?_⟩
  obtain ⟨hname, herror⟩ := htexts h hmem
  exact hx.feedFree hs hmem hname herror

/-- What is printed of a scan that finds hosts in different states. -/
theorem mixed_tags :
    let a : Arguments := {}
    let x := Mixed.execution
    x.On Mixed.settings Mixed.network ∧ a.vulnerableOnly = false ∧ a.ipsOnly = false ∧
      (∀ h ∈ x.report.hosts, h.FeedFree) ∧
      a.write x.report .human = unlines
        ["[RELAY]   192.0.2.1 :: 1/1 rule(s) relayed",
          "          rule 0: HELO a / MAIL FROM:<b> / RCPT TO:<c>",
          "[CLOSED]  192.0.2.2 :: connect: refused",
          "[FATAL]   192.0.2.3 :: HELO failed: closed",
          "[FATAL]   192.0.2.4 :: scan task ended without reporting",
          "[SECURE]  192.0.2.5 :: 1 rule(s) refused",
          "[SKIPPED] 192.0.2.6",
          "6 host(s): 3 smtp open, 1 unreachable, 1 open relay(s), 2 fatal, 1 cancelled, 3 check(s)",
          "scan interrupted before every host was checked"] ∧
      x.report.Reads (printedLines (a.write x.report .human)) := by
  intro a x
  have hfree : ∀ h ∈ x.report.hosts, h.FeedFree := by
    simp only [HostRecord.feedFree_iff]
    decide +kernel
  obtain ⟨hiff, -⟩ := tags_agree (a := a) Mixed.execution_on rfl rfl
  exact ⟨Mixed.execution_on, rfl, rfl, hfree, by decide +kernel, hiff.2 hfree⟩

/-! ## A line feed in a domain -/

namespace Forged

/-- The classic attempts around a domain that pretends to be the end of a line and another host. -/
def arguments : Arguments :=
  { range := some "192.0.2.1", externalDomain := "x\n[RELAY]   192.0.2.9" }

def host : Address := ⟨192, 0, 2, 1⟩

def settings : Settings :=
  { targets := .range (.single host), rules := .standard arguments.externalDomain }

theorem accepted : arguments.settings (fun _ => .error "") = .ok settings := rfl

/-- The first rule relays. Then no reply comes any more. -/
def script : Script where
  send _ := { value := .ok () }
  read n := { value := if n < 5 then .ok { code := 250, text := "" } else .error "timed out" }

def network : Network := { peer := fun _ => script.peer }

def outcome : Outcome := .reported (settings.recordOf script.peer 0 host false)

def execution : Execution settings.targets :=
  { retries := 0, limit := 1, moves := [.ask, .launched, .finish 0 outcome, .release 0]
    last := _, run := rfl, done := rfl }

theorem execution_on : execution.On settings network := by
  have hends : network.Ends settings 0 host outcome false :=
    network.ends_of_calm (fun _ => rfl) (by decide +kernel)
  exact Execution.on_of_ends (List.forall_mem_singleton.2 ⟨host, rfl, hends⟩)

end Forged

/-- **A line feed forges tags.** These arguments are accepted. One host relays, and three lines say
that one does. -/
theorem line_feed_forges_tags :
    let a := Forged.arguments
    let x := Forged.execution
    a.settings (fun _ => .error "") = .ok Forged.settings ∧
      x.On Forged.settings Forged.network ∧ a.vulnerableOnly = false ∧ a.ipsOnly = false ∧
      printedLines (a.write x.report .human) =
        ["[RELAY]   192.0.2.1 :: 1/2 rule(s) relayed",
          "          rule 0: HELO relaytest.invalid / MAIL FROM:<probe@x",
          "[RELAY]   192.0.2.9> / RCPT TO:<check@x",
          "[RELAY]   192.0.2.9>",
          "1 host(s): 1 smtp open, 0 unreachable, 1 open relay(s), 1 fatal, 0 cancelled, 2 check(s)"] ∧
      x.report.tally.vulnerable = 1 ∧
      (printedLines (a.write x.report .human)).countP Tag.relay.marks = 3 := by
  intro a x
  have htext : a.write x.report .human = unlines
      ["[RELAY]   192.0.2.1 :: 1/2 rule(s) relayed",
        "          rule 0: HELO relaytest.invalid / MAIL FROM:<probe@x",
        "[RELAY]   192.0.2.9> / RCPT TO:<check@x",
        "[RELAY]   192.0.2.9>",
        "1 host(s): 1 smtp open, 0 unreachable, 1 open relay(s), 1 fatal, 0 cancelled, 2 check(s)"] := by
    decide +kernel
  rw [htext, printedLines_unlines (by decide +kernel)]
  exact ⟨Forged.accepted, Forged.execution_on, rfl, rfl, rfl, by decide +kernel, by decide +kernel⟩

end OpenRelay
