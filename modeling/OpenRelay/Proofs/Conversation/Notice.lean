import OpenRelay.Conversation.Check

/-!
# How a check notices that the scan is cancelled

A check learns of a cancellation only when it asks, which it does before it sends a line, and once it
has learned of one its record says so. After the last line but `QUIT` it does not ask any more.

* `Dialogue.Always`: all results of a dialogue are of a kind.
* `Dialogue.Heeds`: a dialogue says in its result whether it has learned of a cancellation.
* `heeds_checkHost`: a check does, by the flag of its record.
-/

namespace OpenRelay

namespace Dialogue

variable {α β : Type} {R : α → Prop} {S : β → Prop}

/-- A dialogue whose results are all of this kind, whatever it is answered. -/
def Always (R : α → Prop) : Dialogue α → Prop
  | .done a => R a
  | .poll next => ∀ c, (next c).Always R
  | .lookUp _ next => ∀ out, (next out).Always R
  | .connect _ _ _ _ next => ∀ out, (next out).Always R
  | .send _ next => ∀ out, (next out).Always R
  | .read _ next => ∀ out, (next out).Always R

/-- A dialogue whose result is of this kind if it learns that the scan is cancelled, and of the other
kind if it does not. -/
def Heeds (R : α → Prop) : Dialogue α → Prop
  | .done a => ¬ R a
  | .poll next => (next true).Always R ∧ (next false).Heeds R
  | .lookUp _ next => ∀ out, (next out).Heeds R
  | .connect _ _ _ _ next => ∀ out, (next out).Heeds R
  | .send _ next => ∀ out, (next out).Heeds R
  | .read _ next => ∀ out, (next out).Heeds R

theorem Always.bind {d : Dialogue α} {k : α → Dialogue β} (hd : d.Always R)
    (hk : ∀ a, R a → (k a).Always S) : (d >>= k).Always S := by
  show (d.bind k).Always S
  induction d with
  | done a => exact hk a hd
  | poll next ih | lookUp x next ih | connect x port c t next ih | send line next ih
  | read t next ih => exact fun out => ih out (hd out)

theorem always_true (d : Dialogue α) : d.Always fun _ => True := by
  induction d with
  | done a => trivial
  | poll next ih | lookUp x next ih | connect x port c t next ih | send line next ih
  | read t next ih => exact ih

/-- What a dialogue goes on with depends on what it has learned so far. -/
theorem Heeds.bind {d : Dialogue α} {k : α → Dialogue β} (hd : d.Heeds R)
    (hno : ∀ a, ¬ R a → (k a).Heeds S) (hyes : ∀ a, R a → (k a).Always S) :
    (d >>= k).Heeds S := by
  show (d.bind k).Heeds S
  induction d with
  | done a => exact hno a hd
  | poll next ih => exact ⟨hd.1.bind hyes, ih false hd.2⟩
  | lookUp x next ih | connect x port c t next ih | send line next ih | read t next ih =>
    exact fun out => ih out (hd out)

theorem Heeds.ask {k : Bool → Dialogue α} (hyes : (k true).Always R) (hno : (k false).Heeds R) :
    (isCancelled >>= k).Heeds R :=
  ⟨hyes, hno⟩

theorem Heeds.say {line : String} {k : Except String Unit → Dialogue α}
    (h : ∀ out, (k out).Heeds R) : (sendLine line >>= k).Heeds R :=
  h

theorem Heeds.listen {t : Duration} {k : Except String Reply → Dialogue α}
    (h : ∀ out, (k out).Heeds R) : (readReply t >>= k).Heeds R :=
  h

theorem Heeds.connect {x : Address} {port : Nat} {c t : Duration}
    {k : Except String Unit → Dialogue α} (h : ∀ out, (k out).Heeds R) :
    (connectTo x port c t >>= k).Heeds R :=
  h

end Dialogue

open Dialogue (Always Heeds)

/-! ## Attempts -/

/-- A step that was not taken as the scan was cancelled. -/
def Untaken {α : Type} (out : Except Halt α) : Prop := ∃ stage, out = .error (.cancelled stage)

/-- An attempt that was cut off as the scan was cancelled. -/
def Unfinished (out : Attempt × Option Halt) : Prop := ∃ stage, out.2 = some (.cancelled stage)

theorem heeds_transmit (stage : Stage) (lines : List String) :
    (transmit stage lines).Heeds Untaken := by
  induction lines with
  | nil => exact nofun
  | cons line rest ih =>
    refine Heeds.ask ⟨stage, rfl⟩ (Heeds.say fun out => ?_)
    cases out with
    | error e => exact nofun
    | ok u => exact ih

theorem heeds_hear (stage : Stage) (t : Duration) : (hear stage t).Heeds Untaken := by
  refine Heeds.listen fun out => ?_
  cases out with
  | error e => exact nofun
  | ok r => exact nofun

theorem heeds_take (st : Step) : st.take.Heeds Untaken := by
  refine (heeds_transmit _ _).bind (fun out hout => ?_) ?_
  · cases out with
    | error halt => exact fun ⟨stage, hstage⟩ => hout ⟨stage, by cases hstage; rfl⟩
    | ok u => exact heeds_hear _ _
  · rintro _ ⟨stage, rfl⟩
    exact ⟨stage, rfl⟩

/-- What an attempt goes on with after a step. -/
theorem heeds_after_take {st : Step} {k : Except Halt Reply → Dialogue (Attempt × Option Halt)}
    {a : Attempt} (herror : ∀ halt, k (.error halt) = pure (a, some halt))
    (hok : ∀ r, (k (.ok r)).Heeds Unfinished) : (st.take >>= k).Heeds Unfinished := by
  refine (heeds_take st).bind (fun out hout => ?_) ?_
  · cases out with
    | error halt =>
      rw [herror]
      exact fun ⟨stage, hstage⟩ => hout ⟨stage, congrArg _ (Option.some.inj hstage)⟩
    | ok r => exact hok r
  · rintro _ ⟨stage, rfl⟩
    rw [herror]
    exact ⟨stage, rfl⟩

theorem heeds_pursue (steps : List Step) (a : Attempt) : (pursue steps a).Heeds Unfinished := by
  induction steps generalizing a with
  | nil => exact nofun
  | cons st rest ih =>
    refine heeds_after_take (fun _ => rfl) fun r => ?_
    dsimp only
    split
    · exact ih _
    · exact nofun

theorem heeds_conclude (reset : Step) (a : Attempt) : (conclude reset a).Heeds Unfinished :=
  heeds_after_take (fun _ => rfl) fun _ => nofun

theorem heeds_tryRule (steps : List Step) (reset : Step) (a : Attempt) :
    (tryRule steps reset a).Heeds Unfinished := by
  refine (heeds_pursue steps a).bind (fun out hout => ?_) ?_
  · obtain ⟨a, halt⟩ := out
    cases halt with
    | some halt => exact hout
    | none => exact heeds_conclude reset a
  · rintro ⟨a, _⟩ ⟨stage, rfl⟩
    exact ⟨stage, rfl⟩

/-! ## Checks -/

/-- A check that says that the scan was cancelled. -/
abbrev HostRecord.Noticed (h : HostRecord) : Prop := h.cancelled = true

/-- Nothing is asked around `QUIT`. -/
theorem heeds_sayQuit (t : Duration) : (sayQuit t).Heeds fun _ => False := by
  refine Heeds.say fun out => ?_
  cases out with
  | error e => exact id
  | ok u =>
    refine Heeds.listen fun out => ?_
    cases out with
    | error e => exact id
    | ok r => exact id

theorem always_closeEarly (t : Duration) (h : HostRecord) (stage : Stage) :
    (closeEarly t h (.cancelled stage)).Always HostRecord.Noticed := by
  have hquit : (sayQuit t >>= fun quit => pure { h with cancelled := true, quit }).Always
      HostRecord.Noticed :=
    (Dialogue.always_true _).bind fun _ _ => rfl
  cases stage with
  | banner | dataEnd => exact rfl
  | resolve | connect | helo | mailFrom | rcptTo | dataStart | rset | quit => exact hquit

/-- A conversation that stops for another reason says nothing of a cancellation. -/
theorem heeds_closeEarly {t : Duration} {h : HostRecord} {halt : Halt}
    (hcalm : h.cancelled = false) (hhalt : ¬ ∃ stage, halt = .cancelled stage) :
    (closeEarly t h halt).Heeds HostRecord.Noticed := by
  cases halt with
  | cancelled stage => exact absurd ⟨stage, rfl⟩ hhalt
  | broken failure => exact Bool.eq_false_iff.1 hcalm

variable {s : Settings} {h : HostRecord}

theorem heeds_tryRules (rules : List (Rule × Nat)) (hcalm : h.cancelled = false) :
    (tryRules s rules h).Heeds HostRecord.Noticed := by
  induction rules generalizing h with
  | nil =>
    exact (heeds_sayQuit s.readTimeout).bind (fun _ _ => Bool.eq_false_iff.1 hcalm)
      fun _ => False.elim
  | cons x rest ih =>
    refine Heeds.ask (always_closeEarly _ h .helo) ?_
    refine (heeds_tryRule _ _ _).bind (fun out hout => ?_) ?_
    · obtain ⟨a, halt⟩ := out
      cases halt with
      | none => exact ih hcalm
      | some halt =>
        exact heeds_closeEarly hcalm fun ⟨stage, hstage⟩ => hout ⟨stage, congrArg some hstage⟩
    · rintro ⟨a, _⟩ ⟨stage, rfl⟩
      exact always_closeEarly _ _ stage

theorem heeds_converse (hcalm : h.cancelled = false) :
    (converse s h).Heeds HostRecord.Noticed := by
  refine Heeds.ask (always_closeEarly _ h .banner) ?_
  refine (heeds_hear .banner s.readTimeout).bind (fun out hout => ?_) ?_
  · cases out with
    | error halt =>
      exact heeds_closeEarly hcalm fun ⟨stage, hstage⟩ => hout ⟨stage, congrArg _ hstage⟩
    | ok r => exact heeds_tryRules _ hcalm
  · rintro _ ⟨stage, rfl⟩
    exact always_closeEarly _ h stage

theorem heeds_contact (hcalm : h.cancelled = false) :
    (contact s h).Heeds HostRecord.Noticed := by
  refine Heeds.connect fun out => ?_
  cases out with
  | error e => exact Bool.eq_false_iff.1 hcalm
  | ok u => exact heeds_converse hcalm

/-- **A check says in its record whether it has learned that the scan is cancelled.** -/
theorem heeds_checkHost (s : Settings) (index : Nat) (address : Address) :
    (checkHost s index address).Heeds HostRecord.Noticed := by
  refine Heeds.ask rfl ?_
  show (identify s { index, address } >>= contact s).Heeds HostRecord.Noticed
  unfold identify
  split
  · -- a look-up asks nothing either
    show ∀ found, _
    intro found
    cases found with
    | named name | unnamed | failed => exact heeds_contact rfl
  · exact heeds_contact rfl

end OpenRelay
