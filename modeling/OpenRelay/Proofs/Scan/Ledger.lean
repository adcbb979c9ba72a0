import Mathlib.Data.List.Induction
import OpenRelay.Proofs.Target.Places
import OpenRelay.Scan.Dispatch

/-!
# What a ledger holds

Each operation on a ledger is said by what stands at each place afterwards.

* `Ledger.get?_enterAll`: after any reports a place holds the first one that came for it.
* `Ledger.exists_complete`: a place without a report takes one.
* `Ledger.first_report_kept`: what a ledger is after any reports, and which further ones it refuses.
* `Dispatch.get?_ledger`: what the ledger of a scan holds at its end.
-/

namespace OpenRelay

/-- The record of a host that nothing is known of. -/
def HostRecord.pending (index : Nat) (address : Address) : HostRecord := { index, address }

/-- A report as it stands at its place. -/
def HostRecord.placed (r : HostRecord) (index : Nat) (address : Address) : HostRecord :=
  { r with index, address, visited := true }

namespace Ledger

variable {l l' : Ledger} {t : Targets} {index i : Nat} {r : HostRecord}

theorem isSome_get? (l : Ledger) (i : Nat) : (l.get? i).isSome ↔ i < l.size := by
  simp [get?, size]

theorem get?_ofTargets (t : Targets) (i : Nat) :
    (ofTargets t).get? i = (t.nth? i).map (HostRecord.pending i) := by
  rw [ofTargets, get?, List.getElem?_toArray, List.getElem?_map, List.getElem?_zipIdx,
    t.getElem?_toList, Option.map_map, Nat.zero_add]
  rfl

/-- **When a report is taken**, and what it leaves behind. -/
theorem complete_eq_ok_iff : l.complete index r = .ok l' ↔
    ∃ p, l.get? index = some p ∧ p.visited = false ∧
      l' = { records := l.records.setIfInBounds index (r.placed index p.address) } := by
  unfold complete
  cases l.get? index with
  | none => simp
  | some p =>
    cases hv : p.visited with
    | true => simp [hv]
    | false =>
      simp only [hv, Bool.false_eq_true, if_false, Except.ok.injEq, Option.some.injEq]
      exact ⟨fun h => ⟨p, rfl, hv, h.symm⟩, by rintro ⟨_, rfl, -, rfl⟩; rfl⟩

/-- A report changes its own place, and only if there was none before it. -/
theorem get?_enter (l : Ledger) (index : Nat) (r : HostRecord) (i : Nat) :
    (l.enter index r).get? i =
      if i = index then
        (l.get? index).map fun p => if p.visited then p else r.placed index p.address
      else l.get? i := by
  have hsame : (∀ p ∈ l.get? index, p.visited = true) → (if i = index then (l.get? index).map
      fun p => if p.visited then p else r.placed index p.address else l.get? i) = l.get? i := by
    intro h
    split
    · subst i
      cases hp : l.get? index with
      | none => rfl
      | some p => simp [h p hp]
    · rfl
  unfold enter
  cases hc : l.complete index r with
  | error e =>
    refine (hsame fun p hp => ?_).symm
    -- a place that refuses a report has one
    by_contra hv
    have htaken := complete_eq_ok_iff (r := r) |>.2 ⟨p, hp, Bool.eq_false_iff.2 hv, rfl⟩
    rw [hc] at htaken
    cases htaken
  | ok l' =>
    obtain ⟨p, hp, hv, rfl⟩ := complete_eq_ok_iff.1 hc
    have hlt : index < l.records.size := (Array.getElem?_eq_some_iff.1 hp).1
    show (l.records.setIfInBounds index _)[i]? = _
    rw [Array.getElem?_setIfInBounds]
    by_cases hi : i = index
    · subst i
      simp [hlt, hp, hv]
    · rw [if_neg (Ne.symm hi), if_neg hi]
      rfl

/-- Enters reports in the order in which they come. -/
def enterAll (l : Ledger) (reports : List (Nat × HostRecord)) : Ledger :=
  reports.foldl (fun l x => l.enter x.1 x.2) l

/-- **What reports leave behind.** A place holds the first report that came for it, and is pending
if there was none. -/
theorem get?_enterAll (t : Targets) (reports : List (Nat × HostRecord)) (i : Nat) :
    ((ofTargets t).enterAll reports).get? i = (t.nth? i).map fun x =>
      match reports.lookup i with
      | some r => r.placed i x
      | none => .pending i x := by
  induction reports using List.reverseRecOn with
  | nil => exact get?_ofTargets t i
  | append_singleton reports x ih =>
    obtain ⟨index, r⟩ := x
    rw [enterAll, List.foldl_append, List.foldl_cons, List.foldl_nil, ← enterAll, get?_enter,
      List.lookup_append]
    by_cases hi : i = index
    · subst i
      rw [if_pos rfl, ih, Option.map_map]
      cases t.nth? index with
      | none => rfl
      | some x =>
        cases reports.lookup index with
        | none => simp [HostRecord.pending, HostRecord.placed]
        | some r' => simp [HostRecord.placed]
    · rw [if_neg hi, ih]
      have hnone : [(index, r)].lookup i = none := by simp [hi]
      rw [hnone, Option.or_none]

/-- **A place without a report takes one.** -/
theorem exists_complete {reports : List (Nat × HostRecord)} (hi : i < t.count)
    (hnew : i ∉ reports.map Prod.fst) (r : HostRecord) :
    ∃ l, ((ofTargets t).enterAll reports).complete i r = .ok l := by
  obtain ⟨x, hx⟩ := t.exists_nth? hi
  have hnone : reports.lookup i = none := by
    refine List.lookup_eq_none_iff.2 fun p hp => bne_iff_ne.2 ?_
    rintro rfl
    exact hnew (List.mem_map_of_mem hp)
  have hget := get?_enterAll t reports i
  rw [hx, hnone] at hget
  exact ⟨_, complete_eq_ok_iff.2 ⟨_, hget, rfl, rfl⟩⟩

/-- **When a report is refused**, and for what reason. -/
theorem complete_eq_error_iff {e : LedgerError} : l.complete index r = .error e ↔
    (l.get? index = none ∧ e = .outOfRange index l.size) ∨
      ∃ p, l.get? index = some p ∧ p.visited = true ∧ e = .alreadyCompleted index := by
  unfold complete
  cases l.get? index with
  | none =>
    constructor
    · rintro ⟨⟩
      exact .inl ⟨rfl, rfl⟩
    · rintro (⟨-, rfl⟩ | ⟨_, hp, -⟩)
      · rfl
      · cases hp
  | some p =>
    cases hv : p.visited with
    | true =>
      simp only [hv, if_true]
      constructor
      · rintro ⟨⟩
        exact .inr ⟨p, rfl, hv, rfl⟩
      · rintro (⟨hp, -⟩ | ⟨_, -, -, rfl⟩)
        · cases hp
        · rfl
    | false =>
      refine iff_of_false (by simp [hv]) ?_
      rintro (⟨hp, -⟩ | ⟨_, ⟨⟩, hvisited, -⟩)
      · cases hp
      · rw [hv] at hvisited
        cases hvisited

/-- A refused report changes nothing. -/
theorem enter_of_error {e : LedgerError} (h : l.complete index r = .error e) :
    l.enter index r = l := by
  rw [enter, h]

/-- Reports do not change how many records there are. -/
theorem size_enterAll (t : Targets) (reports : List (Nat × HostRecord)) :
    ((ofTargets t).enterAll reports).size = t.count := by
  have hplace : ∀ i, i < ((ofTargets t).enterAll reports).size ↔ i < t.count := fun i => by
    rw [← isSome_get?, get?_enterAll, Option.isSome_map, t.isSome_nth?]
  have hle := hplace t.count
  have hge := hplace ((ofTargets t).enterAll reports).size
  omega

/-- A report came for a place. -/
def Reported (reports : List (Nat × HostRecord)) (i : Nat) : Prop := ∃ r, (i, r) ∈ reports

theorem reported_iff {reports : List (Nat × HostRecord)} :
    Reported reports i ↔ ∃ r, reports.lookup i = some r := by
  rw [← Option.isSome_iff_exists, ← Option.ne_none_iff_isSome, ne_eq, List.lookup_eq_none_iff]
  simp [Reported]

/-- The report that is found for a place is the first one. -/
theorem lookup_of_first {before after : List (Nat × HostRecord)} (hbefore : ¬ Reported before i) :
    (before ++ (i, r) :: after).lookup i = some r := by
  have hnone : before.lookup i = none := by
    rwa [← Option.not_isSome_iff_eq_none, Option.isSome_iff_exists, ← reported_iff]
  rw [List.lookup_append, hnone, Option.none_or, List.lookup_cons_self]

/-- The records of the places for which a report came are those that say so. -/
theorem visited_iff {reports : List (Nat × HostRecord)} {p : HostRecord}
    (hp : ((ofTargets t).enterAll reports).get? i = some p) :
    p.visited = true ↔ Reported reports i := by
  rw [get?_enterAll] at hp
  obtain ⟨x, -, rfl⟩ := Option.map_eq_some_iff.1 hp
  rw [reported_iff]
  cases reports.lookup i <;> simp [HostRecord.pending, HostRecord.placed]

/-- What is true of a ledger for targets into which reports were entered as they came, whatever places
they were for and whatever they said of themselves. -/
structure KeepsFirst (t : Targets) (reports : List (Nat × HostRecord)) (l : Ledger) : Prop where
  /-- There is one record for each target. -/
  size : l.size = t.count
  /-- The record at the place of a target says that place and that target. It says that the host was
  visited if a report came for the place, and is then the first of those reports. -/
  record : ∀ i x, t.toList[i]? = some x → ∃ h, l.get? i = some h ∧ h.index = i ∧ h.address = x ∧
    (h.visited = true ↔ Reported reports i) ∧
    ∀ before r after, reports = before ++ (i, r) :: after → ¬ Reported before i → h = r.placed i x
  /-- A further report is refused if there is no target at its place, and for another reason if one
  came for that place before it. -/
  refused : ∀ i r e, l.complete i r = .error e ↔
    (t.count ≤ i ∧ e = .outOfRange i t.count) ∨
      (i < t.count ∧ Reported reports i ∧ e = .alreadyCompleted i)
  /-- A refused report leaves all records as they were. -/
  unchanged : ∀ i r e, l.complete i r = .error e → l.enter i r = l

/-- **A ledger keeps the first report for each place.** -/
theorem first_report_kept (t : Targets) (reports : List (Nat × HostRecord)) :
    KeepsFirst t reports ((ofTargets t).enterAll reports) where
  size := size_enterAll t reports
  record i x hx := by
    have hget := get?_enterAll t reports i
    rw [← t.getElem?_toList, hx, Option.map_some] at hget
    refine ⟨_, hget, ?_, ?_, visited_iff hget, ?_⟩
    · cases reports.lookup i <;> rfl
    · cases reports.lookup i <;> rfl
    · rintro before r after rfl hbefore
      rw [lookup_of_first hbefore]
  refused i r e := by
    have hplace := isSome_get? ((ofTargets t).enterAll reports) i
    rw [size_enterAll] at hplace
    rw [complete_eq_error_iff, size_enterAll]
    refine or_congr (and_congr_left fun _ => ?_) ⟨?_, ?_⟩
    · rw [← Option.not_isSome_iff_eq_none, hplace, Nat.not_lt]
    · rintro ⟨p, hp, hvisited, rfl⟩
      exact ⟨hplace.1 (by rw [hp]; rfl), (visited_iff hp).1 hvisited, rfl⟩
    · rintro ⟨hlt, hreported, rfl⟩
      obtain ⟨p, hp⟩ := Option.isSome_iff_exists.1 (hplace.2 hlt)
      exact ⟨p, hp, (visited_iff hp).2 hreported, rfl⟩
  unchanged _ _ _ := enter_of_error

/-- **A place that no target has takes no report.** A second one for it is refused like the first, and
not for the reason that one came before it. -/
theorem refused_again_out_of_range :
    let r : HostRecord := .pending 0 .unspecified
    let l := (ofTargets (.list [⟨192, 0, 2, 1⟩])).enterAll [(1, r)]
    Reported [(1, r)] 1 ∧ l.complete 1 r = .error (.outOfRange 1 1) ∧
      ¬ (l.complete 1 r = .error (.alreadyCompleted 1) ↔ Reported [(1, r)] 1) := by
  intro r l
  have hreported : Reported [(1, r)] 1 := ⟨r, List.mem_singleton_self _⟩
  have hrefused : l.complete 1 r = .error (.outOfRange 1 1) := rfl
  refine ⟨hreported, hrefused, fun h => ?_⟩
  have hcompleted := h.2 hreported
  rw [hrefused] at hcompleted
  cases hcompleted

theorem get?_finalize (l : Ledger) (admitted i : Nat) :
    (l.finalize admitted).get? i = (l.get? i).map (close admitted) :=
  Array.getElem?_map

theorem get?_markUnstarted (l : Ledger) (index : Nat) (reason : String) (i : Nat) :
    (l.markUnstarted index reason).get? i = (l.get? i).map fun r =>
      if i = index ∧ r.visited = false then
        { r with cancelled := false, fatalError := true, error := some reason }
      else r := by
  unfold markUnstarted get?
  rw [Array.getElem?_modify]
  by_cases hi : index = i
  · subst hi
    rw [if_pos rfl]
    congr 1
    funext r
    cases r.visited <;> simp
  · rw [if_neg hi]
    simp [Ne.symm hi]

end Ledger

namespace Dispatch

/-- The record of a host whose task was not started: because all tries for it were used up, or
because the scan was cancelled before. -/
def unstarted (abandoned : Option Abandoned) (index : Nat) (address : Address) : HostRecord :=
  match abandoned with
  | some a =>
    if a.index = index then
      { index, address, fatalError := true, error := some ("scan task not started: " ++ a.reason) }
    else { index, address, cancelled := true }
  | none => { index, address, cancelled := true }

/-- The record of a host whose task broke off. -/
def vanished (index : Nat) (address : Address) : HostRecord :=
  { index, address, fatalError := true, error := some "scan task ended without reporting" }

/-- **The ledger of a scan.** A place holds the first record that was sent for it. Without one it
says that its task vanished, if it was started, or else why it was not. -/
theorem get?_ledger (t : Targets) {s : State}
    (habandoned : ∀ a ∈ s.abandoned, s.admitted ≤ a.index) (i : Nat) :
    (ledger t s).get? i = (t.nth? i).map fun x =>
      match s.sent.lookup i with
      | some r => r.placed i x
      | none => if i < s.admitted then vanished i x else unstarted s.abandoned i x := by
  have hclosed : (((Ledger.ofTargets t).enterAll s.sent).finalize s.admitted).get? i =
      (t.nth? i).map fun x =>
        match s.sent.lookup i with
        | some r => r.placed i x
        | none => if i < s.admitted then vanished i x else unstarted none i x := by
    rw [Ledger.get?_finalize, Ledger.get?_enterAll, Option.map_map]
    congr 1
    funext x
    cases s.sent.lookup i with
    | some r => rfl
    | none => rfl
  unfold ledger
  cases ha : s.abandoned with
  | none => exact hclosed
  | some a =>
    show (((Ledger.ofTargets t).enterAll s.sent).finalize s.admitted |>.markUnstarted a.index
      ("scan task not started: " ++ a.reason)).get? i = _
    rw [Ledger.get?_markUnstarted, hclosed, Option.map_map]
    congr 1
    funext x
    cases s.sent.lookup i with
    | some r => simp [HostRecord.placed]
    | none =>
      have hless := habandoned a ha
      by_cases hi : i = a.index
      · subst hi
        simp [unstarted, Nat.not_lt.2 hless]
      · by_cases hlt : i < s.admitted <;> simp [unstarted, vanished, hi, hlt, Ne.symm hi]

end Dispatch

end OpenRelay
