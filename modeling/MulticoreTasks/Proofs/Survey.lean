import MulticoreTasks.Resource.Ownership
import MulticoreTasks.Proofs.Clash
import MulticoreTasks.Proofs.Placement

/-!
# Surveying resource by resource

Sharing, ceilings and placement are defined resource by resource, each by itself and from all its
accessors at once.  Here they are worked out in walks: one over the accesses, which notes who
accesses what, and then one over the resources for each stage, in which what is found out about a
resource is entered under its name, and under its types and its core.

* `Sharing.note`, `Sharing.foldl_note`   : the accessors of the declared resources;
* `Sharing.Walk`, `Sharing.Walk.foldl_visit` : the sharing with its findings;
* `Ceilings.Walk`, `Ceilings.Walk.foldl_visit` : the ceilings with theirs;
* `Placement.settleIn`, `Placement.foldl_settleIn` : the placement.

A resource is met once in each walk, so that no entry is ever overwritten.
-/

namespace MulticoreTasks

variable {app : App}

/-! ## Accessors -/

namespace Sharing

/-- An access is noted under its resource, if this is declared. -/
def note (accessors : Table ResourceName (SortedSet TaskName)) (u : Use) :
    Table ResourceName (SortedSet TaskName) :=
  accessors.modify u.resource (·.insert u.task.name)

theorem getElem?_foldl_note (uses : List Use) (t : Table ResourceName (SortedSet TaskName))
    (r : ResourceName) : (uses.foldl note t)[r]? =
      t[r]?.map ((uses.filter (·.resource = r)).foldl fun names u => names.insert u.task.name) := by
  induction uses generalizing t with
  | nil => cases h : t[r]? <;> simp [h]
  | cons u uses ih =>
    rw [List.foldl_cons, ih, note, Std.ExtTreeMap.getElem?_modify]
    by_cases h : u.resource = r
    · subst h
      cases t[u.resource]? <;> simp
    · have hkey : compare u.resource r ≠ .eq := fun e => h (Std.LawfulEqOrd.eq_of_compare e)
      simp [h, hkey]

/-- Noting every access gives the declared resources with their accessors. -/
theorem foldl_note (app : App) : app.uses.foldl note (app.resources.map fun _ _ => ∅) =
    app.resources.map fun r _ => app.accessors r := by
  refine Std.ExtTreeMap.ext_getElem? fun r => ?_
  rw [getElem?_foldl_note, Std.ExtTreeMap.getElem?_map, Std.ExtTreeMap.getElem?_map, Option.map_map]
  congr 1
  funext resource
  exact SortedSet.foldl_insert_map _ _

/-! ## Sharing -/

/-- What has been made of the resources on the way. -/
structure Walk where
  sharing : Sharing := {}
  unused : List Diagnostic := []

namespace Walk

/-- A resource is entered by what its accessors make of it. -/
def visit (w : Walk) (e : ResourceName × SortedSet TaskName) : Walk :=
  match Usage.ofAccessors e.2 with
  | .unused => { w with unused := w.unused ++ [.unusedResource e.1] }
  | .exclusive owner =>
    { w with sharing := { w.sharing with exclusive := w.sharing.exclusive.insert e.1 owner } }
  | .shared names =>
    { w with sharing := { w.sharing with shared := w.sharing.shared.insert e.1 names } }

/-- All that becomes of a walk when one more resource is met. -/
theorem visit_eq (w : Walk) (e : ResourceName × SortedSet TaskName) : w.visit e =
    { sharing :=
        { exclusive := (Usage.ofAccessors e.2).owner?.elim w.sharing.exclusive
            (w.sharing.exclusive.insert e.1)
          shared := (Usage.ofAccessors e.2).sharers?.elim w.sharing.shared
            (w.sharing.shared.insert e.1) }
      unused := w.unused ++
        if Usage.ofAccessors e.2 = .unused then [.unusedResource e.1] else [] } := by
  unfold visit
  cases Usage.ofAccessors e.2 <;> simp [Usage.owner?, Usage.sharers?]

variable (t : Table ResourceName (SortedSet TaskName))

theorem exclusive_foldl_visit : (t.entries.foldl visit {}).sharing.exclusive =
    t.filterMap fun _ names => (Usage.ofAccessors names).owner? := by
  rw [← Table.empty_union (t.filterMap _), ← Table.foldl_insert_filterMap]
  exact (List.foldl_hom (fun w : Walk => w.sharing.exclusive) fun w e => by rw [visit_eq]).symm

theorem shared_foldl_visit : (t.entries.foldl visit {}).sharing.shared =
    t.filterMap fun _ names => (Usage.ofAccessors names).sharers? := by
  rw [← Table.empty_union (t.filterMap _), ← Table.foldl_insert_filterMap]
  exact (List.foldl_hom (fun w : Walk => w.sharing.shared) fun w e => by rw [visit_eq]).symm

theorem unused_foldl_visit (entries : List (ResourceName × SortedSet TaskName)) (w : Walk) :
    (entries.foldl visit w).unused = w.unused ++
      (entries.filter fun e => Usage.ofAccessors e.2 = .unused).map
        fun e => .unusedResource e.1 := by
  induction entries generalizing w with
  | nil => simp
  | cons e entries ih =>
    rw [List.foldl_cons, ih, visit_eq]
    by_cases h : Usage.ofAccessors e.2 = .unused <;> simp [h]

/-- The walk over the resources, each with its accessors, comes to the sharing of the application
and its findings. -/
theorem foldl_visit (app : App) :
    (Table.entries (app.uses.foldl note (app.resources.map fun _ _ => ∅))).foldl visit {} =
      ⟨ofApp app, findings app⟩ := by
  have hexclusive : ((app.resources.map fun r _ => app.accessors r).filterMap
      fun _ names => (Usage.ofAccessors names).owner?) = (ofApp app).exclusive := by
    refine Std.ExtTreeMap.ext_getElem? fun r => ?_
    rw [Std.ExtTreeMap.getElem?_filterMap', Std.ExtTreeMap.getElem?_map, Option.bind_map,
      getElem?_exclusive]
    rfl
  have hshared : ((app.resources.map fun r _ => app.accessors r).filterMap
      fun _ names => (Usage.ofAccessors names).sharers?) = (ofApp app).shared := by
    refine Std.ExtTreeMap.ext_getElem? fun r => ?_
    rw [Std.ExtTreeMap.getElem?_filterMap', Std.ExtTreeMap.getElem?_map, Option.bind_map,
      getElem?_shared]
    rfl
  have hunused : (Table.entries (app.resources.map fun r _ => app.accessors r)).filter
      (fun e => Usage.ofAccessors e.2 = .unused) =
      (app.resources.keys.filter fun r => app.usage r = .unused).map
        fun r => (r, app.accessors r) := by
    rw [Table.entries, Std.ExtTreeMap.toList_map, ← Std.ExtTreeMap.map_fst_toList_eq_keys,
      List.filter_map, List.filter_map, List.map_map]
    rfl
  have hparts : ∀ w : Walk, w = ⟨⟨w.sharing.exclusive, w.sharing.shared⟩, w.unused⟩ :=
    fun _ => rfl
  rw [foldl_note, findings]
  refine (hparts _).trans ?_
  rw [exclusive_foldl_visit, shared_foldl_visit, unused_foldl_visit, hexclusive, hshared, hunused,
    List.map_map]
  rfl

end Walk

end Sharing

/-! ## Ceilings -/

namespace Ceilings

/-- What has been found out about shared resources on the way. -/
structure Walk where
  ceilings : Ceilings := ∅
  findings : List Diagnostic := []

namespace Walk

/-- A resource whose accessors are found gets its ceiling, and is looked through for a clash. -/
def visit (app : App) (w : Walk) (e : ResourceName × SortedSet TaskName) : Walk :=
  match app.ceiling? e.2 with
  | none => w
  | some ceiling =>
    { ceilings := w.ceilings.insert e.1 ceiling
      findings := w.findings ++ (app.conflict? e.1 e.2).toList }

/-- Where no accessor is found there is none to clash. -/
theorem conflict?_of_ceiling? {r : ResourceName} {names : SortedSet TaskName}
    (h : app.ceiling? names = none) : app.conflict? r names = none := by
  have hnil : app.lookUp names = [] := by
    unfold App.ceiling? App.prioritiesOf at h
    split at h
    · next hnil => exact List.map_eq_nil_iff.1 hnil
    · cases h
  refine App.conflict?_eq_none_iff.2 (Or.inr ?_)
  rw [hnil]
  simp

theorem visit_eq (w : Walk) (e : ResourceName × SortedSet TaskName) : w.visit app e =
    { ceilings := (app.ceiling? e.2).elim w.ceilings (w.ceilings.insert e.1)
      findings := w.findings ++ (app.conflict? e.1 e.2).toList } := by
  unfold visit
  cases hceiling : app.ceiling? e.2 with
  | none => simp [conflict?_of_ceiling? hceiling]
  | some ceiling => rfl

theorem ceilings_foldl_visit (t : Table ResourceName (SortedSet TaskName))
    (found : List Diagnostic) : (t.entries.foldl (visit app) { findings := found }).ceilings =
      t.filterMap fun _ names => app.ceiling? names := by
  rw [← Table.empty_union (t.filterMap _), ← Table.foldl_insert_filterMap]
  exact (List.foldl_hom Walk.ceilings fun w e => by rw [visit_eq]).symm

theorem findings_foldl_visit (entries : List (ResourceName × SortedSet TaskName)) (w : Walk) :
    (entries.foldl (visit app) w).findings =
      w.findings ++ entries.filterMap fun e => app.conflict? e.1 e.2 := by
  induction entries generalizing w with
  | nil => simp
  | cons e entries ih =>
    rw [List.foldl_cons, ih, visit_eq]
    cases h : app.conflict? e.1 e.2 <;> simp [h]

/-- The walk over the shared resources, begun with the priorities that the target does not have,
comes to the ceilings and their findings. -/
theorem foldl_visit (limits : Limits) (app : App) (sharing : Sharing) :
    sharing.shared.entries.foldl (visit app)
      { findings := (app.taskList.filter fun t => !limits.inRange t.priority).map
          fun t => .priorityOutOfRange t.name t.priority limits.maxPriority } =
      ⟨app.ceilings sharing, Ceilings.findings limits app sharing⟩ := by
  have hparts : ∀ w : Walk, w = ⟨w.ceilings, w.findings⟩ := fun _ => rfl
  refine (hparts _).trans ?_
  rw [ceilings_foldl_visit, findings_foldl_visit]
  rfl

end Walk

end Ceilings

/-! ## Placement -/

namespace Placement

/-- A used resource is entered with its location, and its type with what the location asks of it. -/
def settleIn (app : App) (sharing : Sharing) (p : Placement) (e : ResourceName × Resource) :
    Placement :=
  if !sharing.isUsed e.1 then p
  else
    match locate (app.accessCores e.1) e.2.lateCore? with
    | none => p
    | some location =>
      let reads := isAccessed app e.1 .read
      let writes := isAccessed app e.1 .write
      let syncTypes :=
        if location.isCrossCore then
          if reads then p.syncTypes.insert e.2.valueType else p.syncTypes
        else if sharing.shared.contains e.1 && reads && 1 < (app.accessPriorities e.1).size then
          p.syncTypes.insert e.2.valueType
        else p.syncTypes
      let sendTypes :=
        if location.isCrossCore && writes then p.sendTypes.insert e.2.valueType else p.sendTypes
      { locations := p.locations.insert e.1 location
        lateResources := e.2.lateCore?.elim p.lateResources fun core =>
          p.lateResources.alter core fun names => some ((names.getD ∅).insert e.1)
        sendTypes :=
          if location.isCrossInitialized then sendTypes.insert e.2.valueType else sendTypes
        syncTypes }

/-- The placement with one more placed resource. -/
def enter (app : App) (sharing : Sharing) (p : Placement) (placed : Placed) : Placement :=
  { locations := p.locations.insert placed.name placed.location
    lateResources := placed.resource.lateCore?.elim p.lateResources fun core =>
      p.lateResources.alter core fun names => some ((names.getD ∅).insert placed.name)
    sendTypes :=
      if needsSend app placed then p.sendTypes.insert placed.resource.valueType else p.sendTypes
    syncTypes :=
      if needsSync app sharing placed then p.syncTypes.insert placed.resource.valueType
      else p.syncTypes }

/-- A resource is entered if it has a location. -/
theorem settleIn_eq (sharing : Sharing) (p : Placement) (e : ResourceName × Resource) :
    p.settleIn app sharing e =
      match (location? app sharing e.1 e.2).map fun location => ⟨e.1, e.2, location⟩ with
      | none => p
      | some placed => p.enter app sharing placed := by
  unfold settleIn location?
  by_cases hused : sharing.isUsed e.1 = true
  · cases locate (app.accessCores e.1) e.2.lateCore? with
    | none => simp [hused]
    | some location =>
      cases location with
      | single core crossInitialized =>
        cases crossInitialized <;>
          simp [hused, enter, needsSend, needsSync, Location.isCrossCore,
            Location.isCrossInitialized, and_assoc, and_left_comm]
      | spread core cores =>
        simp [hused, enter, needsSend, needsSync, Location.isCrossCore,
          Location.isCrossInitialized]
  · simp [hused]

section Parts

variable (sharing : Sharing) (placed : List Placed)

theorem lateResources_foldl_enter :
    (placed.foldl (enter app sharing) {}).lateResources = lateOf placed := by
  have hentered : (placed.foldl (enter app sharing) {}).lateResources =
      (placed.filterMap fun p => p.resource.lateCore?.map (·, p.name)).foldl (fun late e =>
        late.alter e.1 fun names => some ((names.getD ∅).insert e.2)) ∅ := by
    rw [List.foldl_filterMap]
    refine (List.foldl_hom Placement.lateResources fun p placed => ?_).symm
    unfold enter
    cases placed.resource.lateCore? <;> rfl
  rw [hentered]
  refine (Table.foldl_alter_eq_map_groupBy Prod.fst (fun (names : SortedSet ResourceName)
    (e : Core × ResourceName) => names.insert e.2) ∅ _).trans ?_
  simp only [SortedSet.foldl_insert_map]
  rfl

theorem sendTypes_foldl_enter : (placed.foldl (enter app sharing) {}).sendTypes =
    SortedSet.ofList ((placed.filter (needsSend app)).map (·.resource.valueType)) := by
  rw [← SortedSet.foldl_insert_map, List.foldl_filter]
  exact (List.foldl_hom Placement.sendTypes fun _ _ => rfl).symm

theorem syncTypes_foldl_enter : (placed.foldl (enter app sharing) {}).syncTypes =
    SortedSet.ofList ((placed.filter (needsSync app sharing)).map (·.resource.valueType)) := by
  rw [← SortedSet.foldl_insert_map, List.foldl_filter]
  exact (List.foldl_hom Placement.syncTypes fun _ _ => rfl).symm

end Parts

/-- The walk over the declared resources comes to the placement. -/
theorem foldl_settleIn (app : App) (sharing : Sharing) :
    app.resources.entries.foldl (settleIn app sharing) {} = ofSharing app sharing := by
  have hlocations : (app.resources.entries.foldl (settleIn app sharing) {}).locations =
      app.resources.filterMap fun name r => location? app sharing name r := by
    rw [← Table.empty_union (app.resources.filterMap _), ← Table.foldl_insert_filterMap]
    refine (List.foldl_hom Placement.locations fun p e => ?_).symm
    rw [settleIn_eq]
    cases location? app sharing e.1 e.2 <;> rfl
  have hplaced : app.resources.entries.foldl (settleIn app sharing) {} =
      (placed app sharing).foldl (enter app sharing) {} := by
    rw [placed, List.foldl_filterMap]
    congr 1
    funext p e
    rw [settleIn_eq]
    cases h : location? app sharing e.1 e.2 <;> simp [h]
  have hparts : ∀ p : Placement, p = ⟨p.locations, p.lateResources, p.sendTypes, p.syncTypes⟩ :=
    fun _ => rfl
  refine (hparts _).trans ?_
  rw [hlocations, hplaced, lateResources_foldl_enter, sendTypes_foldl_enter, syncTypes_foldl_enter]
  rfl

end Placement

end MulticoreTasks
