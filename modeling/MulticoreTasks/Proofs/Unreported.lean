import MulticoreTasks.Proofs.Faults

/-!
# Faults that are never reported

Some parts of the consistency check guard the stages against each other.  Whatever becomes of the
tasks of an application, these parts are never heard:

* `Inconsistency.IsInternal` : a ceiling that differs from its ownership or is below an accessor,
  and an undeclared core behind a timer queue or among those that a core waits for;
* `analyze_never_internal`   : no such fault is reported.

A ceiling is taken over all accessors that are the task of their name, and the others are reported
for that.  A timer queue and a wait before a spawn come from a spawn, and the channel of that spawn
is checked first.  A wait for an initialisation is for the core of a late resource, which was
declared (`App.LateDeclared`).
-/

namespace MulticoreTasks

/-- A contradiction between the outputs of the stages themselves. -/
def Inconsistency.IsInternal : Inconsistency → Prop
  | .ceilingMismatch _ => True
  | .ceilingBelowAccessor _ _ _ _ => True
  | .unknownCore _ entity =>
    entity = "timer queue" ∨ ∃ waiting : Core, entity = s!"barrier of {waiting.label}"
  | .unknownTask _ _ _ => False
  | .misroutedTask _ _ _ _ _ => False
  | .unknownAccessor _ _ => False
  | .unknownResource _ _ => False

variable {app : App} {limits : Limits} {fault : Inconsistency} {core : Core}

/-! ## Entities -/

/-- Timer queues and waits are told from the other entities by their first letter. -/
theorem not_isInternal_of_head? {entity : String} (ht : entity.toList.head? ≠ some 't')
    (hb : entity.toList.head? ≠ some 'b') :
    ¬ (Inconsistency.unknownCore core entity).IsInternal := by
  rintro (rfl | ⟨waiting, rfl⟩)
  · simp at ht
  · simp [toString] at hb

/-- A core that waits is another entity than the cores that it waits for. -/
theorem not_isInternal_barrier : ¬ (Inconsistency.unknownCore core "barrier").IsInternal := by
  rintro (h | ⟨waiting, h⟩)
  · simp at h
  · have hletters := congrArg String.toList h
    simp [toString] at hletters

/-! ## Part by part -/

theorem not_isInternal_of_mem_useFaults (h : fault ∈ useFaults app) : ¬ fault.IsInternal := by
  obtain ⟨u, -, rfl⟩ := List.mem_map.1 h
  exact not_false

/-- What is said of a name that a channel lists, as a target or as a sender. -/
theorem not_isInternal_of_mem_nameFault {route : Route} {name : TaskName}
    (h : fault ∈ targetFault app route name ∨ fault ∈ senderFault app route name) :
    ¬ fault.IsInternal := by
  cases ht : app.task? name with
  | none =>
    simp only [targetFault, senderFault, ht, List.mem_singleton, or_self] at h
    rw [h]
    exact not_false
  | some t =>
    simp only [targetFault, senderFault, ht, List.mem_ite_nil_left, List.mem_singleton] at h
    rcases h with ⟨-, rfl⟩ | ⟨-, rfl⟩
    · exact not_false
    · exact not_false

theorem not_isInternal_of_mem_channelFaults {a : Analysis} (h : fault ∈ a.channelFaults app) :
    ¬ fault.IsInternal := by
  obtain ⟨⟨route, channel⟩, -, hmem⟩ := List.mem_flatMap.1 h
  simp only [channelFault, List.mem_append, mem_coreFault, List.mem_flatMap] at hmem
  rcases hmem with ((⟨-, rfl⟩ | ⟨-, rfl⟩) | ⟨name, -, htarget⟩) | ⟨name, -, hsender⟩
  · exact not_isInternal_of_head? (by simp [toString]) (by simp [toString])
  · exact not_isInternal_of_head? (by simp [toString]) (by simp [toString])
  · exact not_isInternal_of_mem_nameFault (.inl htarget)
  · exact not_isInternal_of_mem_nameFault (.inr hsender)

theorem not_isInternal_of_mem_accessorFaults
    (h : fault ∈ (Analysis.ofApp limits app).accessorFaults app) : ¬ fault.IsInternal := by
  obtain ⟨u, hu, hmem⟩ := List.mem_flatMap.1 h
  rw [accessorFault_eq hu, List.mem_ite_nil_right, List.mem_singleton] at hmem
  rw [hmem.2]
  exact not_false

theorem not_isInternal_of_mem_ownerFaults {a : Analysis} (h : fault ∈ a.ownerFaults app) :
    ¬ fault.IsInternal := by
  obtain ⟨⟨r, ownership⟩, -, hsome⟩ := List.mem_filterMap.1 h
  cases ownership with
  | shared ceiling => cases hsome
  | exclusive owner =>
    simp only [Option.ite_none_left_eq_some, Option.some.injEq] at hsome
    rw [← hsome.2]
    exact not_false

/-- Where the cores that are waited for are declared, only those that wait are reported. -/
theorem not_isInternal_of_mem_waitFaults {cores : SortedSet Core} {table : WaitTable}
    (hdeclared : ∀ (waiting : Core) (on : SortedSet Core), table[waiting]? = some on →
      ∀ c ∈ on, c ∈ cores) (h : fault ∈ Analysis.waitFaults cores table) : ¬ fault.IsInternal := by
  obtain ⟨⟨waiting, on⟩, hentry, hmem⟩ := List.mem_flatMap.1 h
  simp only [List.mem_append, List.mem_flatMap, mem_coreFault, Std.ExtTreeSet.mem_toList] at hmem
  rcases hmem with ⟨-, rfl⟩ | ⟨c, hc, hundeclared, -⟩
  · exact not_isInternal_barrier
  · exact absurd (hdeclared waiting on (Table.mem_entries.1 hentry) c hc) hundeclared

theorem not_isInternal_of_mem_coreFaults (hlate : app.LateDeclared)
    (hrouted : ∀ e ∈ app.edges, e.IsRouted app)
    (h : fault ∈ (Analysis.ofApp limits app).coreFaults) : ¬ fault.IsInternal := by
  simp only [Analysis.coreFaults, List.mem_append] at h
  rcases h with ((hlocation | htimer) | hinitialization) | hspawn
  · obtain ⟨⟨r, location⟩, -, hmem⟩ := List.mem_flatMap.1 hlocation
    rw [(mem_coreFault.1 hmem).2]
    exact not_isInternal_of_head? (by simp [toString]) (by simp [toString])
  · obtain ⟨c, hc, hmem⟩ := List.mem_flatMap.1 htimer
    have hcore := mem_cores_of_timerQueue hrouted (Std.ExtTreeMap.mem_keys.1 hc)
    exact absurd hcore (mem_coreFault.1 hmem).1
  · refine not_isInternal_of_mem_waitFaults ?_ hinitialization
    intro waiting on hon
    exact mem_cores_of_initializationWaits hlate hon
  · refine not_isInternal_of_mem_waitFaults ?_ hspawn
    intro waiting on hon
    exact (mem_cores_of_spawnWaits hrouted hon).2

/-! ## The first fault -/

/-- A channel with a fault keeps back all that comes after the channels. -/
theorem exists_head?_of_channelFaults
    (h : (Analysis.ofApp limits app).channelFaults app ≠ []) :
    ∃ fault ∈ useFaults app ++ (Analysis.ofApp limits app).channelFaults app,
      ((Analysis.ofApp limits app).faults app).head? = some fault := by
  have hne : useFaults app ++ (Analysis.ofApp limits app).channelFaults app ≠ [] :=
    List.append_ne_nil_of_right_ne_nil _ h
  obtain ⟨fault, hhead⟩ := Option.ne_none_iff_exists'.1 (mt List.head?_eq_none_iff.1 hne)
  refine ⟨fault, List.mem_of_head? hhead, ?_⟩
  simp only [Analysis.faults, List.append_assoc]
  rw [← List.append_assoc, List.head?_append, hhead, Option.some_or]

theorem not_isInternal_of_head?_faults (hlate : app.LateDeclared)
    (hhead : ((Analysis.ofApp limits app).faults app).head? = some fault) :
    ¬ fault.IsInternal := by
  by_cases hchannels : (Analysis.ofApp limits app).channelFaults app = []
  · have hrouted := channelFaults_eq_nil_iff.1 hchannels
    have hmem := List.mem_of_head? hhead
    simp only [Analysis.faults, hchannels, ceilingFaults_eq_nil, List.append_nil,
      List.mem_append] at hmem
    rcases hmem with ((huse | haccessor) | howner) | hcore
    · exact not_isInternal_of_mem_useFaults huse
    · exact not_isInternal_of_mem_accessorFaults haccessor
    · exact not_isInternal_of_mem_ownerFaults howner
    · exact not_isInternal_of_mem_coreFaults hlate hrouted hcore
  · obtain ⟨first, hfirst, hsome⟩ := exists_head?_of_channelFaults hchannels
    rw [hhead, Option.some.injEq] at hsome
    rw [hsome]
    rcases List.mem_append.1 hfirst with huse | hchannel
    · exact not_isInternal_of_mem_useFaults huse
    · exact not_isInternal_of_mem_channelFaults hchannel

/-- However stored tasks were overwritten, no internal fault is reported: an undeclared core behind
a timer queue or waited for before spawns has the application rejected for what was found, or for an
access or a channel; and the cores that are waited for at the start are declared. -/
theorem analyze_never_internal (h : app.Amended) (limits : Limits) (ledger : Ledger) :
    (∀ fault, (ledger.settle (analyze limits app)).1 = .ok (.error (.inconsistent fault)) →
      ¬ fault.IsInternal) ∧
    (∀ core, (core ∈ (Analysis.ofApp limits app).timerQueues ∨
          ∃ (waiting : Core) (on : SortedSet Core),
            (Analysis.ofApp limits app).spawnWaits[waiting]? = some on ∧ core ∈ on) →
      core ∉ app.cores →
        (∃ found, (ledger.settle (analyze limits app)).1 = .ok (.error (.diagnostics found))) ∨
          ∃ fault ∈ useFaults app ++ (Analysis.ofApp limits app).channelFaults app,
            (ledger.settle (analyze limits app)).1 = .ok (.error (.inconsistent fault))) ∧
    ∀ (waiting : Core) (on : SortedSet Core),
      (Analysis.ofApp limits app).initializationWaits[waiting]? = some on →
        ∀ core ∈ on, core ∈ app.cores := by
  simp only [Ledger.settle_analyze, Except.ok.injEq, analyze_eq_inconsistent_iff,
    analyze_eq_diagnostics_iff]
  refine ⟨?_, ?_, ?_⟩
  · rintro fault ⟨-, hhead⟩
    exact not_isInternal_of_head?_faults h.lateDeclared hhead
  · intro core hspawn hcore
    by_cases hclean : (Stages.ofApp limits app).findings = []
    · have hchannels : (Analysis.ofApp limits app).channelFaults app ≠ [] := by
        intro hnil
        have hrouted := channelFaults_eq_nil_iff.1 hnil
        rcases hspawn with htimer | ⟨waiting, on, hon, hmem⟩
        · exact hcore (mem_cores_of_timerQueue hrouted htimer)
        · exact hcore ((mem_cores_of_spawnWaits hrouted hon).2 core hmem)
      obtain ⟨fault, hfault, hhead⟩ := exists_head?_of_channelFaults hchannels
      exact .inr ⟨fault, hfault, hclean, hhead⟩
    · exact .inl ⟨_, hclean, rfl⟩
  · intro waiting on hon
    exact mem_cores_of_initializationWaits h.lateDeclared hon

/-- The relay once polling has moved to a core that is not declared, and its timer queue with it. -/
def Relay.strayed : App := Relay.app.amendTask "poll" fun t => { t with core := ⟨9⟩ }

/-- What is reported is the channel that polling spawns over, and not its timer queue. -/
theorem analyze_never_internal_strayed :
    ∃ fault ∈ useFaults Relay.strayed ++
        (Analysis.ofApp .default Relay.strayed).channelFaults Relay.strayed,
      ((∅ : Ledger).settle (analyze .default Relay.strayed)).1 =
        .ok (.error (.inconsistent fault)) ∧ ¬ fault.IsInternal := by
  obtain ⟨hinternal, hspawn, -⟩ :=
    analyze_never_internal (.amendTask "poll" _ (.reachable Relay.reachable)) .default ∅
  have htimer : ⟨9⟩ ∈ (Analysis.ofApp .default Relay.strayed).timerQueues := by decide +kernel
  have hclean : (Stages.ofApp .default Relay.strayed).findings = [] := by decide +kernel
  have hcore : ⟨9⟩ ∉ Relay.strayed.cores := by decide +kernel
  rcases hspawn ⟨9⟩ (.inl htimer) hcore with ⟨found, hfound⟩ | ⟨fault, hfault, hsaid⟩
  · rw [Ledger.settle_analyze, Except.ok.injEq, analyze_eq_diagnostics_iff] at hfound
    obtain ⟨hne, rfl⟩ := hfound
    exact absurd hclean hne
  · exact ⟨fault, hfault, hsaid, hinternal fault hsaid⟩

end MulticoreTasks
