import OpenRelay.Command.Outcome
import OpenRelay.Proofs.Scan.Tags
import OpenRelay.Proofs.Target.Entries

/-!
# Bare addresses

A report can be reduced to the addresses of its hosts, to be passed on. It is another flag that
leaves the hosts out that do not relay.

* `Report.pieces_addresses`: one address a line, and nothing else.
* `Report.readList_addresses`: so they can be read as an address list.
* `Command.bare_addresses`: whose addresses are printed.
* `Command.secure_addresses_printed`: hosts that do not relay are listed among those that do.
-/

namespace OpenRelay

variable {rows rows' : List HostRecord}

namespace Report

/-- Addresses are written one a line. -/
theorem pieces_addresses (rows : List HostRecord) :
    Text.pieces '\n' (addresses rows).toList =
      (rows.map fun h => h.address.toString.toList) ++ [[]] := by
  have hplain : ∀ line ∈ rows.map fun h => h.address.toString, '\n' ∉ line.toList := by
    rw [List.forall_mem_map]
    exact fun _ _ => Address.not_mem_toString (by decide) (by decide)
  rw [addresses, pieces_unlines hplain, List.map_map]
  rfl

/-- What is written tells the addresses. -/
theorem addresses_eq_iff : addresses rows = addresses rows' ↔
    rows.map (·.address) = rows'.map (·.address) := by
  have hread (rows : List HostRecord) :
      (rows.map fun h => h.address.toString.toList).map Address.read? =
        (rows.map (·.address)).map some := by
    rw [List.map_map, List.map_map]
    refine List.map_congr_left fun h _ => ?_
    rw [Function.comp_apply, Function.comp_apply, Address.read?_eq_some_iff]
  constructor
  · intro heq
    -- the lines of the two texts are the same, and each is read as one address
    have htexts := pieces_addresses rows
    rw [heq, pieces_addresses, List.append_left_inj] at htexts
    have haddresses := congrArg (List.map Address.read?) htexts
    rw [hread, hread] at haddresses
    exact (List.map_injective_iff.2 (Option.some_injective _) haddresses).symm
  · intro heq
    have hlines := congrArg (List.map fun x : Address => x.toString) heq
    rw [List.map_map, List.map_map] at hlines
    exact congrArg unlines hlines

/-- Written addresses are an address list. -/
theorem lists_addresses (rows : List HostRecord) :
    Text.Lists Targets.EntryLine (addresses rows).toList (rows.map (·.address)) := by
  induction rows with
  | nil => exact .nil
  | cons h rows ih =>
    have hfeed : '\n' ∉ h.address.toString.toList :=
      Address.not_mem_toString (by decide) (by decide)
    have hline : Targets.EntryLine (h.address.toString.toList ++ []) (some h.address) :=
      .address (.refl _) (.inl rfl)
    rw [List.append_nil] at hline
    rw [addresses, List.map_cons, toList_unlines_cons, ← addresses, List.append_cons]
    exact .next hfeed hline (.inl rfl) ih

/-- **Printed addresses can be scanned again**, if there are any. -/
theorem readList_addresses (h : rows ≠ []) :
    Targets.readList (addresses rows) = .ok (.list (rows.map (·.address))) :=
  Targets.readList_eq_ok_iff.2 ⟨_, rfl, by simpa using h, lists_addresses rows⟩

end Report

namespace Command

/-- **Whose addresses are printed.** Those of all hosts, one a line and nothing else, or those of
the hosts that relay, if others are left out by the flag that is there for it. The code of the run
tells the relays in any case. -/
theorem bare_addresses {a : Arguments} (hformat : a.format = "human") (hips : a.ipsOnly = true)
    (r : Report) :
    let rows := if a.vulnerableOnly then r.vulnerable else r.hosts
    deliver a r =
        { code := if r.vulnerable.isEmpty then 0 else relayCode, stdout := Report.addresses rows } ∧
      Text.pieces '\n' (deliver a r).stdout.toList =
        (rows.map fun h => h.address.toString.toList) ++ [[]] ∧
      ((deliver a r).stdout = Report.addresses r.vulnerable ↔
        a.vulnerableOnly = true ∨ ∀ h ∈ r.hosts, h.isVulnerable = true) := by
  intro rows
  have hrows : a.rows r = rows := by
    unfold rows Arguments.rows
    split
    · rename_i honly
      simp only [honly, Bool.not_true, Bool.false_or]
      rfl
    · rename_i hall
      simp [hall]
  have hdeliver : deliver a r =
      { code := if r.vulnerable.isEmpty then 0 else relayCode,
        stdout := Report.addresses rows } := by
    have hread : a.readFormat = .ok .human := by
      rw [Arguments.readFormat, hformat]
      rfl
    unfold deliver
    rw [hread]
    simp only [Arguments.print, Arguments.write, Arguments.human, hips, if_true, hrows]
  refine ⟨hdeliver, ?_, ?_⟩
  · rw [hdeliver]
    exact Report.pieces_addresses rows
  · rw [hdeliver]
    show Report.addresses rows = Report.addresses r.vulnerable ↔ _
    unfold rows
    split
    · rename_i honly
      simp [honly]
    · rename_i hall
      rw [or_iff_right hall, Report.addresses_eq_iff]
      constructor
      · intro heq
        -- no host is lost, so none was left out
        have hlength := congrArg List.length heq
        rw [List.length_map, List.length_map] at hlength
        exact List.filter_eq_self.1 (List.filter_sublist.eq_of_length hlength.symm)
      · intro hrelay
        rw [Report.vulnerable, List.filter_eq_self.2 hrelay]

/-- The address of the one host that relays, if it is asked for. -/
theorem mixed_addresses :
    let a : Arguments := { ipsOnly := true, vulnerableOnly := true }
    a.format = "human" ∧ a.ipsOnly = true ∧
      (deliver a Mixed.execution.report).stdout = "192.0.2.1\n" ∧
      Text.pieces '\n' (deliver a Mixed.execution.report).stdout.toList =
        ["192.0.2.1".toList, []] := by
  intro a
  obtain ⟨-, hpieces, -⟩ := bare_addresses (a := a) rfl rfl Mixed.execution.report
  exact ⟨rfl, rfl, by decide +kernel, hpieces.trans (by decide +kernel)⟩

/-- **Hosts that do not relay are listed among those that do.** One of six hosts does, and the
addresses of all six are printed. -/
theorem secure_addresses_printed :
    let a : Arguments := { range := some "192.0.2.1-192.0.2.6", ipsOnly := true }
    a.format = "human" ∧ a.ipsOnly = true ∧
      Report.addresses Mixed.execution.report.vulnerable = "192.0.2.1\n" ∧
      (deliver a Mixed.execution.report).stdout =
        "192.0.2.1\n192.0.2.2\n192.0.2.3\n192.0.2.4\n192.0.2.5\n192.0.2.6\n" :=
  ⟨rfl, rfl, by decide +kernel, by decide +kernel⟩

end Command

end OpenRelay
