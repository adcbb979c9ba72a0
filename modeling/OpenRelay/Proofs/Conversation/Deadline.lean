import OpenRelay.Command.Outcome
import OpenRelay.Proofs.Conversation.Budget

/-!
# When the deadline of a host can be computed

Timeouts may be as long as durations can be, so the deadline may be longer than that, and then there
is none. The time of the rules is cut off at the longest duration, which does not help: more time is
added to it.

* `hostDeadline?_eq_check?`: the deadline of accepted settings is one sum, computed if it fits.
* `deadline_computable_iff`: which accepted settings have a deadline.
* `deadline_too_long`: a command line that is accepted and leads to none.
-/

namespace OpenRelay

/-! ## Durations worked out on the way -/

namespace Duration

theorem isSome_check?_iff {n : Nat} : (check? n).isSome ↔ n ≤ longest.nanos := by
  unfold check?
  split <;> simp [*]

theorem check?_eq_none {n : Nat} (h : longest.nanos < n) : check? n = none := by
  rw [check?, if_neg (Nat.not_le.2 h)]

/-- A duration worked out on the way does not matter if what is made of it is no shorter. -/
theorem check?_bind {n : Nat} (next : Duration → Nat) (h : n ≤ next ⟨n⟩) :
    ((check? n).bind fun d => check? (next d)) = check? (next ⟨n⟩) := by
  by_cases hn : n ≤ longest.nanos
  · rw [check?, if_pos hn, Option.bind_some]
  · rw [check?_eq_none (Nat.not_le.1 hn), Option.bind_none,
      check?_eq_none (Nat.lt_of_lt_of_le (Nat.not_le.1 hn) h)]

end Duration

open Duration (check? check?_bind check?_eq_none isSome_check?_iff longest)

variable {s : Settings}

/-! ## The deadline as one sum -/

/-- The time of a rule is one sum. -/
theorem ruleDeadline?_eq_check? (s : Settings) : s.ruleDeadline? = check? s.ruleTime := by
  unfold Settings.ruleDeadline? Settings.ruleTime
  cases s.sendData with
  | false =>
    show (check? (s.readTimeout.nanos * 8)).bind some = check? (8 * s.readTimeout.nanos + 0)
    rw [Option.bind_fun_some, Nat.mul_comm 8, Nat.add_zero]
  | true =>
    -- from the last sum backwards: each duration on the way is no longer than the whole
    have hmessage (envelope started : Duration) :
        (started.add? s.mailTimeout).bind envelope.add? =
          check? (envelope.nanos + (started.nanos + s.mailTimeout.nanos)) :=
      check?_bind (fun message => envelope.nanos + message.nanos) (Nat.le_add_left _ _)
    have hstarted (envelope writes : Duration) :
        ((writes.add? s.readTimeout).bind fun started =>
            (started.add? s.mailTimeout).bind envelope.add?) =
          check? (envelope.nanos + (writes.nanos + s.readTimeout.nanos + s.mailTimeout.nanos)) := by
      simp only [hmessage]
      exact check?_bind (fun started => envelope.nanos + (started.nanos + s.mailTimeout.nanos))
        (by dsimp only; omega)
    have hwrites (envelope : Duration) :
        ((s.readTimeout.scale? (2 + messageLength)).bind fun writes =>
            (writes.add? s.readTimeout).bind fun started =>
              (started.add? s.mailTimeout).bind envelope.add?) =
          check? (envelope.nanos + (s.readTimeout.nanos * (2 + messageLength) +
            s.readTimeout.nanos + s.mailTimeout.nanos)) := by
      simp only [hstarted]
      exact check?_bind (fun writes => envelope.nanos +
        (writes.nanos + s.readTimeout.nanos + s.mailTimeout.nanos)) (by dsimp only; omega)
    show ((s.readTimeout.scale? 8).bind fun envelope =>
      (s.readTimeout.scale? (2 + messageLength)).bind fun writes =>
        (writes.add? s.readTimeout).bind fun started =>
          (started.add? s.mailTimeout).bind envelope.add?) = _
    simp only [hwrites]
    have hall := check?_bind (n := s.readTimeout.nanos * 8) (fun envelope => envelope.nanos +
      (s.readTimeout.nanos * (2 + messageLength) + s.readTimeout.nanos + s.mailTimeout.nanos))
      (Nat.le_add_right _ _)
    refine hall.trans (congrArg check? ?_)
    simp only [messageLength, if_true]
    omega

/-- The time of a whole check, with the rules counted as far as a duration can be scaled. -/
def Settings.countedTime (s : Settings) : Nat :=
  s.connectTimeout.nanos + 3 * s.readTimeout.nanos +
    min s.rules.length Settings.maxFactor * s.ruleTime

/-- Accepted settings have a rule, and each of their timeouts is longer than no time at all. -/
theorem Settings.of_accepted (h : s.fault? = none) :
    0 < s.rules.length ∧ ∀ t, 0 < (s.timeout t).nanos := by
  unfold fault? at h
  split at h
  · cases h
  split at h
  · cases h
  split at h
  · cases h
  next hfind =>
    have htimeouts := List.find?_eq_none.1 hfind
    split at h
    · cases h
    next hrules =>
      refine ⟨List.length_pos_iff.2 (by simpa using hrules), fun t => Nat.pos_of_ne_zero fun ht => ?_⟩
      refine htimeouts t (by cases t <;> simp) (decide_eq_true ?_)
      exact congrArg Duration.mk ht

/-- What is added to the time of the rules is one sum as well. -/
theorem hostDeadline?_eq_bind (s : Settings) : s.hostDeadline? =
    s.ruleDeadline?.bind fun rule => check? (s.connectTimeout.nanos + s.readTimeout.nanos * 3 +
      min (rule.nanos * min s.rules.length Settings.maxFactor) longest.nanos) := by
  unfold Settings.hostDeadline?
  congr 1
  funext rule
  let rules := rule.scaleSaturating (min s.rules.length Settings.maxFactor)
  have haround (edges : Duration) :
      ((s.connectTimeout.add? edges).bind fun around => around.add? rules) =
        check? (s.connectTimeout.nanos + edges.nanos + rules.nanos) :=
    check?_bind (fun around => around.nanos + rules.nanos) (Nat.le_add_right _ _)
  show ((s.readTimeout.scale? 3).bind fun edges =>
    (s.connectTimeout.add? edges).bind fun around => around.add? rules) = _
  simp only [haround]
  exact check?_bind (fun edges => s.connectTimeout.nanos + edges.nanos + rules.nanos)
    (by dsimp only; omega)

/-- **The deadline is one sum.** Where the time of the rules is cut off there is no deadline, as the
time to connect is added to it. -/
theorem hostDeadline?_eq_check? (hrules : 0 < s.rules.length)
    (hconnect : 0 < s.connectTimeout.nanos) : s.hostDeadline? = check? s.countedTime := by
  rw [hostDeadline?_eq_bind, ruleDeadline?_eq_check?, Settings.countedTime]
  have hfactor : 0 < min s.rules.length Settings.maxFactor := Nat.lt_min.2 ⟨hrules, by decide⟩
  generalize min s.rules.length Settings.maxFactor = factor at hfactor ⊢
  rw [Nat.mul_comm 3, Nat.mul_comm factor]
  have hone : s.ruleTime ≤ s.ruleTime * factor := Nat.le_mul_of_pos_right _ hfactor
  by_cases hfits : s.ruleTime * factor ≤ longest.nanos
  · rw [check?, if_pos (Nat.le_trans hone hfits), Option.bind_some, Nat.min_eq_left hfits]
  · have hcut := Nat.not_le.1 hfits
    rw [check?_eq_none (n := _ + _) (by omega), Option.bind_eq_none_iff]
    intro rule hrule
    rw [Duration.nanos_of_check? hrule, Nat.min_eq_right (Nat.le_of_lt hcut)]
    exact check?_eq_none (by omega)

/-! ## Which settings have a deadline -/

/-- Timeouts up to which every accepted scan has a deadline: a bit more than four years. -/
def Duration.moderate : Duration := .ofSeconds 134217728

/-- The longest of moderate timeouts, in every place of the sum. -/
theorem Settings.countedTime_le {t : Nat} (ht : ∀ timeout, (s.timeout timeout).nanos ≤ t) :
    s.countedTime ≤ 4 * t + Settings.maxFactor * (20 * t) := by
  have hconnect : s.connectTimeout.nanos ≤ t := ht .connect
  have hread : s.readTimeout.nanos ≤ t := ht .read
  have hmail : s.mailTimeout.nanos ≤ t := ht .mail
  have hrule : s.ruleTime ≤ 20 * t := by
    unfold ruleTime messageLength
    split <;> omega
  have hrules := Nat.mul_le_mul (Nat.min_le_right s.rules.length Settings.maxFactor) hrule
  unfold countedTime
  omega

/-- **Which accepted settings have a deadline**: those for which the sum of all times fits into a
duration, and the deadline is this sum. Timeouts of up to four years are never too long, whatever the
number of rules. -/
theorem deadline_computable_iff (h : s.fault? = none) :
    (s.hostDeadline?.isSome ↔ s.countedTime ≤ longest.nanos) ∧
      (∀ d ∈ s.hostDeadline?, d.nanos = s.countedTime) ∧
      ((∀ t, (s.timeout t).nanos ≤ Duration.moderate.nanos) → s.hostDeadline?.isSome) := by
  obtain ⟨hrules, htimeouts⟩ := Settings.of_accepted h
  have hsum := hostDeadline?_eq_check? hrules (htimeouts .connect)
  have hiff : s.hostDeadline?.isSome ↔ s.countedTime ≤ longest.nanos := by
    rw [hsum]
    exact isSome_check?_iff
  refine ⟨hiff, fun d hd => Duration.nanos_of_check? (hsum ▸ hd), fun hmoderate => hiff.2 ?_⟩
  exact Nat.le_trans (Settings.countedTime_le hmoderate) (by decide)

/-- One rule without a message takes eight times the time for a reply, and the edges take three. With
all the time that is left to connect, the deadline is the longest duration. -/
theorem deadline_just_fits :
    let s : Settings :=
      { rules := [⟨"a", "b", "c"⟩], readTimeout := .ofSeconds 1
        connectTimeout := ⟨longest.nanos - 11 * Duration.perSecond⟩ }
    s.fault? = none ∧ ∃ d, s.hostDeadline? = some d ∧ d.nanos = longest.nanos := by
  intro s
  have hs : s.fault? = none := by decide +kernel
  obtain ⟨hiff, hsum, -⟩ := deadline_computable_iff hs
  obtain ⟨d, hd⟩ := Option.isSome_iff_exists.1 (hiff.2 (by decide))
  exact ⟨hs, d, hd, (hsum d hd).trans (by decide)⟩

/-- **Accepted settings without a deadline**: the time for a reply is a duration, and eight times of
it are none. With these arguments a run breaks off. -/
theorem deadline_too_long :
    let a : Arguments :=
      { range := some "192.0.2.1", readTimeout := 2305843009213693952, verbose := 2 }
    let s : Settings :=
      { targets := .range (.single ⟨192, 0, 2, 1⟩), rules := .standard "relay-test.invalid"
        readTimeout := .ofSeconds 2305843009213693952 }
    a.settings (fun _ => .error "") = .ok s ∧ s.fault? = none ∧
      (∀ t, (s.timeout t).nanos ≤ longest.nanos) ∧ s.hostDeadline? = none ∧
      Command.breaksOff a s = true := by
  refine ⟨rfl, by decide +kernel, ?_, by decide +kernel, by decide +kernel⟩
  intro t
  cases t <;> decide

end OpenRelay
