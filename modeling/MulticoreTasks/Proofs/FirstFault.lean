import MulticoreTasks.Proofs.Findings
import MulticoreTasks.Proofs.Faults
import MulticoreTasks.Proofs.Flattening

/-!
# The fault that is reported

When nothing is found, the first fault of the consistency check is reported, and the check walks
what the stages have put together.  For an application that is filed under its names the outcome can
be read off its accesses and spawns:

* `Use.IsStray`, `Edge.IsStray` : an access or a spawn that goes where nothing is declared to be;
* `Use.Precedes`, `Edge.Precedes` : the order in which these count, and `IsFirstStray` the first;
* `App.FirstFault`          : the outcome: the first stray access, else the first stray spawn;
* `firstFault_head?_faults` : the consistency check comes to this outcome;
* `analyze_first_fault`     : and so does the analysis.

Spawns are walked channel by channel.  All spawns over one route to one target are stray or none is,
and a route to an undeclared core has stray spawns only: so the first channel with a fault is that
of the first stray spawn, and what it reports is the fault of that spawn.
-/

namespace MulticoreTasks

/-! ## Strays -/

/-- An access to a resource that is not declared. -/
def Use.IsStray (app : App) (u : Use) : Prop := u ∈ app.uses ∧ u.resource ∉ app.resources

/-- Accesses count by the name of the task, then by that of the resource. -/
def Use.Precedes (u v : Use) : Prop :=
  compare u.task.name v.task.name = .lt ∨
    u.task.name = v.task.name ∧ (compare u.resource v.resource).isLE

/-- A spawn whose target is not declared, or runs on another core or at another priority. -/
def Edge.IsStray (app : App) (e : Edge) : Prop :=
  e ∈ app.edges ∧
    ∀ t ∈ app.task? e.target, t.core ≠ e.spawn.core ∨ t.priority ≠ e.spawn.priority

/-- Spawns count by receiving core, priority, sending core and then by the name of the target. -/
def Edge.Precedes (e f : Edge) : Prop :=
  e.route.Before f.route ∨ e.route = f.route ∧ (compare e.target f.target).isLE

/-- What is said of a stray spawn: that its core is not declared, else that its target is not, else
where that one runs. -/
def Edge.fault (app : App) (e : Edge) : Inconsistency :=
  if e.spawn.core ∉ app.cores then .unknownCore e.spawn.core s!"channel to {e.spawn.core.label}"
  else
    match app.task? e.target with
    | none => .unknownTask e.target e.spawn.core e.sender.core
    | some t => .misroutedTask e.target e.spawn.core e.spawn.priority t.core t.priority

/-- The access is the first stray one. -/
def Use.IsFirstStray (app : App) (u : Use) : Prop :=
  u.IsStray app ∧ ∀ v ∈ app.uses, v.IsStray app → u.Precedes v

/-- The spawn is a first stray one; another one may stand beside it on its route to its target. -/
def Edge.IsFirstStray (app : App) (e : Edge) : Prop :=
  e.IsStray app ∧ ∀ f ∈ app.edges, f.IsStray app → e.Precedes f

/-- What the consistency check comes to: the first stray access, else the first stray spawn, else
nothing. -/
inductive App.FirstFault (app : App) : Option Inconsistency → Prop
  | use {u : Use} (hfirst : u.IsFirstStray app) :
      FirstFault app (some (.unknownResource u.task.name u.resource))
  | spawn {e : Edge} (huses : ∀ u ∈ app.uses, ¬ u.IsStray app) (hfirst : e.IsFirstStray app) :
      FirstFault app (some (e.fault app))
  | none (huses : ∀ u ∈ app.uses, ¬ u.IsStray app) (hedges : ∀ e ∈ app.edges, ¬ e.IsStray app) :
      FirstFault app none

/-- A fault that says of an access or a spawn that it is stray. -/
def Inconsistency.IsOfStray : Inconsistency → Prop
  | .unknownResource _ _ => True
  | .unknownTask _ _ _ => True
  | .misroutedTask _ _ _ _ _ => True
  | .unknownCore core entity => entity = s!"channel to {core.label}"
  | .unknownAccessor _ _ => False
  | .ceilingMismatch _ => False
  | .ceilingBelowAccessor _ _ _ _ => False

instance (app : App) (u : Use) : Decidable (u.IsStray app) := by unfold Use.IsStray; infer_instance

instance (u v : Use) : Decidable (u.Precedes v) := by unfold Use.Precedes; infer_instance

instance (app : App) (e : Edge) : Decidable (e.IsStray app) := by
  unfold Edge.IsStray; infer_instance

instance (a b : Route) : Decidable (a.Before b) := by unfold Route.Before; infer_instance

instance (e f : Edge) : Decidable (e.Precedes f) := by unfold Edge.Precedes; infer_instance

instance (app : App) (u : Use) : Decidable (u.IsFirstStray app) := by
  unfold Use.IsFirstStray; infer_instance

instance (app : App) (e : Edge) : Decidable (e.IsFirstStray app) := by
  unfold Edge.IsFirstStray; infer_instance

/-! ## Two strays -/

namespace Detour

def send : Task where
  name := "send"
  core := ⟨0⟩
  priority := 1
  spawns := [⟨"lost", ⟨1⟩, 3, 1, .immediate⟩, ⟨"log", ⟨1⟩, 1, 4, .immediate⟩]

/-- Beside polling, a task starts one that is not declared, and then logging at a priority that is
not that of logging. -/
def app : App := Relay.app.insertTask send

theorem reachable : app.Reachable := .addTask (t := send) Relay.reachable rfl

end Detour

variable {app : App} {limits : Limits}

/-! ## Accesses -/

theorem App.uses_pairwise (h : app.WellFiled) : app.uses.Pairwise Use.Precedes := by
  refine List.pairwise_flatMap.2 ⟨?_, ?_⟩
  · intro t _
    refine List.pairwise_map.2 ((Table.entries_pairwise t.resources).imp ?_)
    intro a b hlt
    exact Or.inr ⟨rfl, by rw [hlt]; rfl⟩
  · refine (App.taskList_pairwise h).imp ?_
    intro t u hlt a ha b hb
    rw [← (Task.mem_uses.1 ha).1, ← (Task.mem_uses.1 hb).1] at hlt
    exact Or.inl hlt

theorem Use.Precedes.refl (u : Use) : u.Precedes u :=
  Or.inr ⟨rfl, by rw [Std.ReflOrd.compare_self]; rfl⟩

theorem exists_firstStray_of_head?_useFaults (h : app.WellFiled) {fault : Inconsistency}
    (hfault : (useFaults app).head? = some fault) :
    ∃ u : Use, u.IsFirstStray app ∧ fault = .unknownResource u.task.name u.resource := by
  rw [useFaults, List.head?_map, List.head?_filter, Option.map_eq_some_iff] at hfault
  obtain ⟨u, hu, rfl⟩ := hfault
  rw [List.find?_eq_findSome?_guard] at hu
  obtain ⟨a, ha, hguard, hfirst⟩ := exists_first_of_findSome? (App.uses_pairwise h) hu
  obtain ⟨rfl, hstray⟩ := Option.guard_eq_some_iff.1 hguard
  refine ⟨a, ⟨⟨ha, of_decide_eq_true hstray⟩, ?_⟩, rfl⟩
  intro v hv hvstray
  have hsome : Option.guard (fun u : Use => decide (u.resource ∉ app.resources)) v ≠ none := by
    simp [Option.guard, hvstray.2]
  rcases hfirst v hv hsome with rfl | hbefore
  · exact Use.Precedes.refl v
  · exact hbefore

theorem useFaults_eq_nil_iff_stray : useFaults app = [] ↔ ∀ u ∈ app.uses, ¬ u.IsStray app := by
  simp only [useFaults, List.map_eq_nil_iff, List.filter_eq_nil_iff, decide_eq_true_eq, Use.IsStray]
  exact forall₂_congr fun u hu => by simp [hu]

/-! ## Spawns -/

theorem targetFault_ne_nil_iff {e : Edge} (he : e ∈ app.edges) :
    targetFault app e.route e.target ≠ [] ↔ e.IsStray app := by
  rw [Ne, targetFault_eq_nil_iff]
  constructor
  · intro h
    refine ⟨he, fun t ht => ?_⟩
    by_contra hroute
    rw [not_or, not_not, not_not] at hroute
    exact h ⟨t, ht, hroute⟩
  · rintro ⟨-, hstray⟩ ⟨t, ht, hcore, hpriority⟩
    rcases hstray t ht with hne | hne
    · exact hne hcore
    · exact hne hpriority

variable {route : Route} {channel : Channel} {fault : Inconsistency}

/-- In an application that is filed under its names the senders of a channel stand where they are,
and what is left to report of it is its receiver and its targets. -/
theorem channelFault_eq (h : app.WellFiled)
    (hchannel : (app.channels app.freeQueues)[route]? = some channel) :
    channelFault app app.cores route channel =
      coreFault app.cores s!"channel to {route.receiver.label}" route.receiver ++
        channel.tasks.toList.flatMap (targetFault app route) := by
  obtain ⟨⟨e, he, hroute⟩, -⟩ := App.channels_eq_some_iff.1 hchannel
  have hsender : route.sender ∈ app.cores := by
    rw [← hroute]
    exact h.core_mem (App.mem_edges.1 he).1
  have hsenders : channel.senders.toList.flatMap (senderFault app route) = [] := by
    rw [List.flatMap_eq_nil_iff]
    intro name hname
    rw [Std.ExtTreeSet.mem_toList, App.mem_senders_channel hchannel] at hname
    obtain ⟨f, hf, rfl, rfl⟩ := hname
    exact senderFault_eq_nil_iff.2 ⟨f.sender, h.task?_name (App.mem_edges.1 hf).1, rfl⟩
  rw [channelFault, coreFault_eq_nil_iff.2 hsender, hsenders, List.append_nil, List.append_nil]

theorem Edge.isStray_of_undeclared (h : app.WellFiled) {e : Edge} (he : e ∈ app.edges)
    (hcore : e.spawn.core ∉ app.cores) : e.IsStray app := by
  refine ⟨he, fun t ht => Or.inl ?_⟩
  rintro hsame
  rw [← hsame] at hcore
  exact hcore (h.task_core ht)

/-- The first name that a channel cannot send to is the target of a first stray spawn on its route.
-/
theorem exists_stray_of_targetFault
    (hchannel : (app.channels app.freeQueues)[route]? = some channel)
    (hfault : (channel.tasks.toList.flatMap (targetFault app route)).head? = some fault) :
    ∃ e : Edge, e.IsStray app ∧ e.route = route ∧
      (∀ f : Edge, f.IsStray app → f.route = route → (compare e.target f.target).isLE) ∧
      (targetFault app route e.target).head? = some fault := by
  rw [List.head?_flatMap] at hfault
  obtain ⟨name, hname, hhead, hfirst⟩ :=
    exists_first_of_findSome? Std.ExtTreeSet.ordered_toList hfault
  rw [Std.ExtTreeSet.mem_toList, App.mem_tasks_channel hchannel] at hname
  obtain ⟨e, he, rfl, rfl⟩ := hname
  have hne : targetFault app e.route e.target ≠ [] := by
    intro hnil
    simp [hnil] at hhead
  refine ⟨e, (targetFault_ne_nil_iff he).1 hne, rfl, ?_, hhead⟩
  intro f hf hroute
  have hmem : f.target ∈ channel.tasks.toList :=
    Std.ExtTreeSet.mem_toList.2 ((App.mem_tasks_channel hchannel).2 ⟨f, hf.1, hroute, rfl⟩)
  have hsome : (targetFault app e.route f.target).head? ≠ none := by
    rw [Ne, List.head?_eq_none_iff, ← hroute]
    exact (targetFault_ne_nil_iff hf.1).2 hf
  rcases hfirst _ hmem hsome with heq | hlt
  · rw [heq, Std.ReflOrd.compare_self]
    rfl
  · rw [hlt]
    rfl

theorem Edge.fault_of_targetFault {e : Edge} (hcore : e.spawn.core ∈ app.cores)
    (hfault : (targetFault app e.route e.target).head? = some fault) : fault = e.fault app := by
  rw [Edge.fault, if_neg (not_not_intro hcore)]
  cases ht : app.task? e.target with
  | none =>
    rw [targetFault, ht] at hfault
    cases hfault
    rfl
  | some t =>
    simp only [targetFault, ht] at hfault
    split at hfault
    · cases hfault
    · cases hfault
      rfl

/-- What a channel reports first is the fault of a first stray spawn on its route. -/
theorem exists_stray_of_channelFault (h : app.WellFiled)
    (hchannel : (app.channels app.freeQueues)[route]? = some channel)
    (hfault : (channelFault app app.cores route channel).head? = some fault) :
    ∃ e : Edge, e.IsStray app ∧ e.route = route ∧
      (∀ f : Edge, f.IsStray app → f.route = route → (compare e.target f.target).isLE) ∧
      fault = e.fault app := by
  rw [channelFault_eq h hchannel, List.head?_append] at hfault
  by_cases hcore : route.receiver ∈ app.cores
  · rw [coreFault_eq_nil_iff.2 hcore, List.head?_nil, Option.none_or] at hfault
    obtain ⟨e, hstray, rfl, hfirst, hhead⟩ := exists_stray_of_targetFault hchannel hfault
    exact ⟨e, hstray, rfl, hfirst, Edge.fault_of_targetFault hcore hhead⟩
  · -- every spawn on the route is stray, and the first of them is as good as any other
    rw [coreFault, if_neg hcore] at hfault
    cases hfault
    obtain ⟨⟨f, hf, rfl⟩, -⟩ := App.channels_eq_some_iff.1 hchannel
    have hmem : f.target ∈ channel.tasks.toList :=
      Std.ExtTreeSet.mem_toList.2 ((App.mem_tasks_channel hchannel).2 ⟨f, hf, rfl, rfl⟩)
    have hne : channel.tasks.toList.flatMap (targetFault app f.route) ≠ [] := by
      intro hnil
      have hstray := Edge.isStray_of_undeclared h hf hcore
      exact (targetFault_ne_nil_iff hf).2 hstray (List.flatMap_eq_nil_iff.1 hnil _ hmem)
    obtain ⟨first, hfirst⟩ := Option.ne_none_iff_exists'.1 (mt List.head?_eq_none_iff.1 hne)
    obtain ⟨e, hstray, hroute, hleast, -⟩ := exists_stray_of_targetFault hchannel hfirst
    refine ⟨e, hstray, hroute, hleast, ?_⟩
    have hreceiver : e.spawn.core = f.route.receiver := congrArg Route.receiver hroute
    rw [Edge.fault, hreceiver, if_pos hcore]

theorem channelFault_ne_nil {e : Edge} (he : e.IsStray app)
    (hchannel : (app.channels app.freeQueues)[e.route]? = some channel) :
    channelFault app app.cores e.route channel ≠ [] := by
  intro hnil
  obtain ⟨-, -, htargets, -⟩ := channelFault_eq_nil_iff.1 hnil
  have hmem := (App.mem_tasks_channel hchannel).2 ⟨e, he.1, rfl, rfl⟩
  exact (targetFault_ne_nil_iff he.1).2 he (htargets _ hmem)

theorem exists_firstStray_of_head?_channelFaults (h : app.WellFiled)
    (hfault : ((Analysis.ofApp limits app).channelFaults app).head? = some fault) :
    ∃ e : Edge, e.IsFirstStray app ∧ fault = e.fault app := by
  rw [Analysis.channelFaults, List.head?_flatMap] at hfault
  obtain ⟨⟨route, channel⟩, hentry, hhead, hfirst⟩ :=
    exists_first_of_findSome? (Table.entries_pairwise _) hfault
  obtain ⟨e, hstray, rfl, hleast, rfl⟩ :=
    exists_stray_of_channelFault h (Table.mem_entries.1 hentry) hhead
  refine ⟨e, ⟨hstray, ?_⟩, rfl⟩
  intro f hf hfstray
  have hchannel := App.getElem?_channels_route hf app.freeQueues
  have hsome : (channelFault app app.cores f.route
      (app.channelOf app.freeQueues f.route (app.edges.filter (·.route = f.route)))).head? ≠
        none :=
    mt List.head?_eq_none_iff.1 (channelFault_ne_nil hfstray hchannel)
  rcases hfirst (f.route, _) (Table.mem_entries.2 hchannel) hsome with heq | hlt
  · have hroute : f.route = e.route := congrArg Prod.fst heq
    exact Or.inr ⟨hroute.symm, hleast f hfstray hroute⟩
  · exact Or.inl (Route.compare_eq_lt.1 hlt)

theorem channelFaults_eq_nil_iff_stray (h : app.WellFiled) :
    (Analysis.ofApp limits app).channelFaults app = [] ↔ ∀ e ∈ app.edges, ¬ e.IsStray app := by
  rw [channelFaults_eq_nil_iff]
  refine forall₂_congr fun e he => ?_
  rw [isRouted_iff h he, ← targetFault_ne_nil_iff he, not_not, targetFault_eq_nil_iff]
  rfl

/-! ## The outcome -/

/-- The consistency check comes to the outcome that is read off the accesses and the spawns. -/
theorem firstFault_head?_faults (h : app.WellFiled) (limits : Limits) :
    app.FirstFault ((Analysis.ofApp limits app).faults app).head? := by
  by_cases huses : useFaults app = []
  · by_cases hchannels : (Analysis.ofApp limits app).channelFaults app = []
    · have hstray := (channelFaults_eq_nil_iff_stray h).1 hchannels
      have hfaults : (Analysis.ofApp limits app).faults app = [] := by
        refine (faults_eq_nil_iff h).2 ⟨useFaults_eq_nil_iff.1 huses, fun e he => ?_⟩
        exact (isRouted_iff h he).1 (channelFaults_eq_nil_iff.1 hchannels e he)
      rw [hfaults]
      exact .none (useFaults_eq_nil_iff_stray.1 huses) hstray
    · obtain ⟨fault, hfault⟩ := Option.ne_none_iff_exists'.1 (mt List.head?_eq_none_iff.1 hchannels)
      obtain ⟨e, hfirst, rfl⟩ := exists_firstStray_of_head?_channelFaults h hfault
      simp only [Analysis.faults, List.append_assoc, List.head?_append, huses, List.head?_nil,
        Option.none_or, hfault, Option.some_or]
      exact .spawn (useFaults_eq_nil_iff_stray.1 huses) hfirst
  · obtain ⟨fault, hfault⟩ := Option.ne_none_iff_exists'.1 (mt List.head?_eq_none_iff.1 huses)
    obtain ⟨u, hfirst, rfl⟩ := exists_firstStray_of_head?_useFaults h hfault
    simp only [Analysis.faults, List.append_assoc, List.head?_append, hfault, Option.some_or]
    exact .use hfirst

theorem Use.eq_of_precedes {u v : Use} (huv : u.Precedes v) (hvu : v.Precedes u) :
    u.task.name = v.task.name ∧ u.resource = v.resource := by
  rcases huv with huv | ⟨hname, huv⟩ <;> rcases hvu with hvu | ⟨hname', hvu⟩
  · exact absurd hvu (Std.OrientedCmp.not_lt_of_lt huv)
  · rw [hname', Std.ReflOrd.compare_self] at huv
    cases huv
  · rw [hname, Std.ReflOrd.compare_self] at hvu
    cases hvu
  · exact ⟨hname, Std.LawfulEqOrd.eq_of_compare (Std.OrientedCmp.isLE_antisymm huv hvu)⟩

theorem Edge.eq_of_precedes {e f : Edge} (hef : e.Precedes f) (hfe : f.Precedes e) :
    e.route = f.route ∧ e.target = f.target := by
  unfold Precedes at hef hfe
  rw [← Route.compare_eq_lt] at hef hfe
  rcases hef with hef | ⟨hroute, hef⟩ <;> rcases hfe with hfe | ⟨hroute', hfe⟩
  · exact absurd hfe (Std.OrientedCmp.not_lt_of_lt hef)
  · rw [hroute', Std.ReflOrd.compare_self] at hef
    cases hef
  · rw [hroute, Std.ReflOrd.compare_self] at hfe
    cases hfe
  · exact ⟨hroute, Std.LawfulEqOrd.eq_of_compare (Std.OrientedCmp.isLE_antisymm hef hfe)⟩

/-- The fault of a stray spawn depends on its route and its target only. -/
theorem Edge.fault_congr {e f : Edge} (hroute : e.route = f.route) (htarget : e.target = f.target) :
    e.fault app = f.fault app := by
  have hreceiver : e.spawn.core = f.spawn.core := congrArg Route.receiver hroute
  have hpriority : e.spawn.priority = f.spawn.priority := congrArg Route.priority hroute
  have hsender : e.sender.core = f.sender.core := congrArg Route.sender hroute
  rw [fault, fault, hreceiver, hpriority, hsender, htarget]

/-- There is one outcome only. -/
theorem App.FirstFault.unique {a b : Option Inconsistency} (ha : app.FirstFault a)
    (hb : app.FirstFault b) : a = b := by
  cases ha with
  | use hu =>
    cases hb with
    | use hv =>
      obtain ⟨hname, hresource⟩ :=
        Use.eq_of_precedes (hu.2 _ hv.1.1 hv.1) (hv.2 _ hu.1.1 hu.1)
      rw [hname, hresource]
    | spawn huses _ => exact absurd hu.1 (huses _ hu.1.1)
    | none huses _ => exact absurd hu.1 (huses _ hu.1.1)
  | spawn huses he =>
    cases hb with
    | use hv => exact absurd hv.1 (huses _ hv.1.1)
    | spawn _ hf =>
      obtain ⟨hroute, htarget⟩ := Edge.eq_of_precedes (he.2 _ hf.1.1 hf.1) (hf.2 _ he.1.1 he.1)
      rw [Edge.fault_congr hroute htarget]
    | none _ hedges => exact absurd he.1 (hedges _ he.1.1)
  | none huses hedges =>
    cases hb with
    | use hv => exact absurd hv.1 (huses _ hv.1.1)
    | spawn _ hf => exact absurd hf.1 (hedges _ hf.1.1)
    | none _ _ => rfl

theorem App.FirstFault.isOfStray (h : app.FirstFault (some fault)) : fault.IsOfStray := by
  cases h with
  | use _ => trivial
  | @spawn e _ _ =>
    unfold Edge.fault
    split
    · rfl
    · split <;> trivial

/-- An application without findings is told the first stray access, else the first stray spawn, else
it is accepted. -/
theorem analyze_first_fault (h : app.Reachable)
    (hclean : (Stages.run limits app).value.findings = []) (ledger : Ledger) :
    (∃ outcome, app.FirstFault outcome) ∧
    (∀ fault, app.FirstFault (some fault) →
      (ledger.settle (analyze limits app)).1 = .ok (.error (.inconsistent fault))) ∧
    (app.FirstFault none → ∃ a, (ledger.settle (analyze limits app)).1 = .ok (.ok a)) ∧
    ∀ fault, (ledger.settle (analyze limits app)).1 = .ok (.error (.inconsistent fault)) →
      fault.IsOfStray := by
  rw [Stages.value_run] at hclean
  have houtcome := firstFault_head?_faults h.filed limits
  simp only [Ledger.settle_analyze, Except.ok.injEq, analyze_eq_inconsistent_iff,
    analyze_eq_ok_iff, hclean, true_and]
  refine ⟨⟨_, houtcome⟩, ?_, ?_, ?_⟩
  · intro fault hfault
    exact houtcome.unique hfault
  · intro hnone
    exact ⟨_, List.head?_eq_none_iff.1 (houtcome.unique hnone), rfl⟩
  · intro fault hfault
    rw [hfault] at houtcome
    exact houtcome.isOfStray

/-- The lower route counts first, although its spawn was declared last. -/
theorem analyze_first_fault_detour :
    ((∅ : Ledger).settle (analyze .default Detour.app)).1 =
      .ok (.error (.inconsistent (.misroutedTask "log" ⟨1⟩ 1 ⟨1⟩ 2))) := by
  have hclean : (Stages.run .default Detour.app).value.findings = [] := by decide +kernel
  have hfirst : Detour.app.FirstFault (some (.misroutedTask "log" ⟨1⟩ 1 ⟨1⟩ 2)) :=
    .spawn (e := ⟨Detour.send, ⟨"log", ⟨1⟩, 1, 4, .immediate⟩⟩) (by decide +kernel)
      (by decide +kernel)
  exact (analyze_first_fault Detour.reachable hclean ∅).2.1 _ hfirst

end MulticoreTasks
