import OpenRelay.Proofs.Rule.OneLine
import OpenRelay.Proofs.Text.Utf8
import OpenRelay.Smtp.Outbox

/-!
# What the other side reads

The other side cuts what it gets at the line ends. Lines without line breaks come out as they went
in, and nothing else does, however much of them has arrived.

* `readLines`: the lines that the other side reads.
* `readLines_lineBytes`: lines come out as they went in.
* `readLines_prefix`: so do those that arrived in full.
-/

namespace OpenRelay

/-- The stretches between the line ends of a stream. The last one has no line end. -/
def stretches : List UInt8 → List (List UInt8)
  | [] => [[]]
  | [b] => [[b]]
  | b :: b' :: bs =>
    if b = 0x0D ∧ b' = 0x0A then [] :: stretches bs
    else (stretches (b' :: bs)).modifyHead (b :: ·)

/-- The stretches of a stream as text. -/
def readLines (bytes : List UInt8) : List String :=
  (stretches bytes).map fun bs => String.ofList (Text.Utf8.decodeLossy bs)

variable {bs rest got : List UInt8} {lines : List String}

theorem stretches_ne_nil (bs : List UInt8) : stretches bs ≠ [] := by
  induction bs using stretches.induct with
  | case1 => simp [stretches]
  | case2 b => simp [stretches]
  | case3 b b' bs h _ => simp [stretches, h]
  | case4 b b' bs h ih =>
    rw [stretches, if_neg h]
    simpa using ih

theorem stretches_cons {b : UInt8} (hb : b ≠ 0x0D) (bs : List UInt8) :
    stretches (b :: bs) = (stretches bs).modifyHead (b :: ·) := by
  cases bs with
  | nil => rfl
  | cons b' bs => rw [stretches, if_neg fun h => hb h.1]

/-- Bytes without a carriage return are one stretch with what follows up to the next line end. -/
theorem stretches_append (hbs : (0x0D : UInt8) ∉ bs) (rest : List UInt8) :
    stretches (bs ++ rest) = (stretches rest).modifyHead (bs ++ ·) := by
  induction bs with
  | nil => cases h : stretches rest <;> simp [h]
  | cons b bs ih =>
    rw [List.mem_cons, not_or] at hbs
    rw [List.cons_append, stretches_cons (Ne.symm hbs.1), ih hbs.2]
    cases stretches rest <;> simp

/-- A line end ends a stretch. -/
theorem stretches_line (hbs : (0x0D : UInt8) ∉ bs) (rest : List UInt8) :
    stretches (bs ++ lineEnd ++ rest) = bs :: stretches rest := by
  rw [List.append_assoc, stretches_append hbs]
  simp [lineEnd, stretches]

/-- Without a line feed there is no line end. -/
theorem stretches_eq_singleton (hbs : (0x0A : UInt8) ∉ bs) : stretches bs = [bs] := by
  induction bs using stretches.induct with
  | case1 => rfl
  | case2 b => rfl
  | case3 b b' bs h _ => simp [h.2] at hbs
  | case4 b b' bs h ih =>
    rw [stretches, if_neg h, ih fun hmem => hbs (List.mem_cons_of_mem _ hmem)]
    rfl

theorem not_mem_encode {line : String} (h : OneLine line) :
    (0x0D : UInt8) ∉ Text.Utf8.encode line.toList ∧
      (0x0A : UInt8) ∉ Text.Utf8.encode line.toList := by
  rw [oneLine_iff] at h
  constructor
  · intro hmem
    exact (h _ (Text.Utf8.ofNat_mem_of_mem_encode hmem (by decide))).1 rfl
  · intro hmem
    exact (h _ (Text.Utf8.ofNat_mem_of_mem_encode hmem (by decide))).2 rfl

theorem readLines_cons {line : String} (h : OneLine line) (rest : List UInt8) :
    readLines (lineBytes line ++ rest) = line :: readLines rest := by
  rw [readLines, lineBytes, stretches_line (not_mem_encode h).1, List.map_cons,
    Text.Utf8.decodeLossy_encode, String.ofList_toList, readLines]

/-- **Lines come out as they went in.** Nothing stands behind the last line end. -/
theorem readLines_lineBytes (h : ∀ line ∈ lines, OneLine line) :
    readLines (lines.flatMap lineBytes) = lines ++ [""] := by
  induction lines with
  | nil => rfl
  | cons line lines ih =>
    obtain ⟨hline, hlines⟩ := List.forall_mem_cons.1 h
    rw [List.flatMap_cons, readLines_cons hline, ih hlines, List.cons_append]

/-- **Of lines that arrive in part, those that arrived in full come out as they went in**, and
nothing else does. -/
theorem readLines_prefix (h : ∀ line ∈ lines, OneLine line) (hgot : got <+: lines.flatMap lineBytes) :
    (readLines got).dropLast <+: lines := by
  induction lines generalizing got with
  | nil =>
    rw [List.flatMap_nil, List.prefix_nil] at hgot
    rw [hgot]
    exact List.nil_prefix
  | cons line lines ih =>
    obtain ⟨hline, hlines⟩ := List.forall_mem_cons.1 h
    rw [List.flatMap_cons] at hgot
    by_cases hfull : lineBytes line <+: got
    · obtain ⟨got', rfl⟩ := hfull
      rw [readLines_cons hline, List.dropLast_cons_of_ne_nil]
      · exact List.cons_prefix_cons.2 ⟨rfl, ih hlines ((List.prefix_append_right_inj _).1 hgot)⟩
      · simpa [readLines] using stretches_ne_nil got'
    · -- what arrived of this line has no line feed
      have hpart : got <+: Text.Utf8.encode line.toList ++ [0x0D] := by
        have hbytes := (List.prefix_or_prefix_of_prefix hgot
          (List.prefix_append (lineBytes line) _)).resolve_right hfull
        have hsplit : lineBytes line = Text.Utf8.encode line.toList ++ [0x0D] ++ [0x0A] := by
          simp [lineBytes, lineEnd]
        rw [hsplit, List.prefix_concat_iff] at hbytes
        exact hbytes.resolve_left fun heq => hfull ((hsplit.trans heq.symm) ▸ List.prefix_rfl)
      have hfeed : (0x0A : UInt8) ∉ got := by
        intro hmem
        rcases List.mem_append.1 (hpart.subset hmem) with hmem | hmem
        · exact (not_mem_encode hline).2 hmem
        · simp at hmem
      rw [readLines, stretches_eq_singleton hfeed]
      exact List.nil_prefix

end OpenRelay
