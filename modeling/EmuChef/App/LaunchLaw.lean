import EmuChef.App.LaunchActions

/-! A launch action starts at most one attempt, and an execution has at most one action or attempt at
any time. -/

namespace EmuChef.App

variable {eligibleLaunchLabel : ExecutionMapping → Json → Option String}

def OfTerminal (eligibleLaunchLabel : ExecutionMapping → Json → Option String)
    (store : ExecutionHandleStore) (record : LaunchActionRecord) : Prop :=
  record.mapping.kind = .real ∧ ∃ terminal report, store.latestTerminal = some terminal ∧
    store.latestTerminalReport = some report ∧ terminal.kind = .real ∧
    terminal.publicHandle = record.mapping.publicHandle ∧
    eligibleLaunchLabel record.mapping report = some record.label

def IsTerminal (store : ExecutionHandleStore) (publicHandle : Nat) : Prop :=
  ∃ terminal, store.latestTerminal = some terminal ∧ terminal.publicHandle = publicHandle

structure ActiveFresh (world : LaunchWorld) (mapping : ExecutionMapping) : Prop where
  drawn : mapping.publicHandle < world.store.drawn
  terminal : ¬IsTerminal world.store mapping.publicHandle
  attempts : ∀ attempt ∈ world.attempts, attempt.mapping.publicHandle ≠ mapping.publicHandle
  launched : mapping.publicHandle ∉ world.launched

/-- An action belongs to the terminal execution, has not been used, and no attempt runs beside it. -/
structure ActionSound (eligibleLaunchLabel : ExecutionMapping → Json → Option String)
    (world : LaunchWorld) (action : LaunchActionRecord) : Prop where
  terminal : OfTerminal eligibleLaunchLabel world.store action
  drawn : action.actionHandle < world.store.drawn
  unused : action.actionHandle ∉ world.started
  launched : action.mapping.publicHandle ∉ world.launched
  alone : ∀ attempt ∈ world.attempts,
    attempt.mapping.publicHandle ≠ action.mapping.publicHandle

/-- An attempt was started by its action and belongs to the terminal execution, if that is still kept. -/
structure AttemptSound (eligibleLaunchLabel : ExecutionMapping → Json → Option String)
    (world : LaunchWorld) (attempt : LaunchActionRecord) : Prop where
  terminal : IsTerminal world.store attempt.mapping.publicHandle →
    OfTerminal eligibleLaunchLabel world.store attempt
  started : attempt.actionHandle ∈ world.started
  drawn : attempt.mapping.publicHandle < world.store.drawn
  launched : attempt.mapping.publicHandle ∉ world.launched

structure LaunchSound (eligibleLaunchLabel : ExecutionMapping → Json → Option String)
    (world : LaunchWorld) : Prop where
  active : ∀ mapping, world.store.active = some mapping → ActiveFresh world mapping
  terminal : ∀ terminal, world.store.latestTerminal = some terminal →
    terminal.publicHandle < world.store.drawn
  actions : ∀ action ∈ world.store.launchActions, ActionSound eligibleLaunchLabel world action
  single : world.store.launchActions.length ≤ 1
  attempts : ∀ attempt ∈ world.attempts, AttemptSound eligibleLaunchLabel world attempt
  distinct : (world.attempts.map fun attempt => attempt.mapping.publicHandle).Nodup
  consumed : (world.attempts.map fun attempt => attempt.actionHandle).Nodup
  once : world.started.Nodup
  used : ∀ action ∈ world.started, action < world.store.drawn
  inFlight : ∀ execution ∈ world.store.launchAttemptsInFlight,
    ∃ attempt ∈ world.attempts, attempt.mapping.publicHandle = execution
  successful : ∀ execution ∈ world.store.successfulLaunches, execution ∈ world.launched
  known : ∀ execution ∈ world.launched, execution < world.store.drawn
  launched : ∀ execution ∈ world.launched,
    IsTerminal world.store execution → execution ∈ world.store.successfulLaunches
  lost : ∀ execution, world.store.isLost execution = true → ∀ terminal,
    world.store.latestTerminal = some terminal → terminal.isNamed .real execution = false
  kept : ∀ execution, world.store.isLost execution = true → ∀ mapping,
    world.store.active = some mapping → mapping.isNamed .real execution = false
  old : ∀ execution, world.store.isLost execution = true → execution < world.store.drawn

theorem LaunchSound.initial : LaunchSound eligibleLaunchLabel .initial := by
  constructor <;> simp [LaunchWorld.initial, ExecutionHandleStore.empty, ExecutionHandleStore.isLost,
    IsTerminal]

section

structure Shrinks (before after : ExecutionHandleStore) : Prop where
  active : ∀ mapping, after.active = some mapping → before.active = some mapping
  terminal : ∀ terminal, after.latestTerminal = some terminal →
    before.latestTerminal = some terminal ∧ after.latestTerminalReport = before.latestTerminalReport
  actions : after.launchActions.Sublist before.launchActions
  authorized : ∀ action ∈ after.launchActions, IsTerminal after action.mapping.publicHandle
  inFlight : after.launchAttemptsInFlight ⊆ before.launchAttemptsInFlight
  successful : after.successfulLaunches ⊆ before.successfulLaunches
  remembered : ∀ execution ∈ before.successfulLaunches, IsTerminal after execution →
    execution ∈ after.successfulLaunches
  lost : ∀ execution, after.isLost execution = true → execution < before.drawn ∧
    (∀ terminal, after.latestTerminal = some terminal → terminal.isNamed .real execution = false) ∧
    ∀ mapping, after.active = some mapping → mapping.isNamed .real execution = false
  drawn : after.drawn = before.drawn

variable {world : LaunchWorld} {after : ExecutionHandleStore}

theorem Shrinks.isTerminal {before : ExecutionHandleStore} {execution : Nat}
    (shrinks : Shrinks before after) (terminal : IsTerminal after execution) :
    IsTerminal before execution := by
  obtain ⟨mapping, kept, named⟩ := terminal
  exact ⟨mapping, (shrinks.terminal mapping kept).1, named⟩

theorem Shrinks.ofTerminal {before : ExecutionHandleStore} {record : LaunchActionRecord}
    (shrinks : Shrinks before after) (kept : IsTerminal after record.mapping.publicHandle)
    (owned : OfTerminal eligibleLaunchLabel before record) :
    OfTerminal eligibleLaunchLabel after record := by
  obtain ⟨mapping, held, named⟩ := kept
  obtain ⟨was, same⟩ := shrinks.terminal mapping held
  obtain ⟨real, terminal, report, retained, reported, kind, _, eligible⟩ := owned
  obtain rfl : mapping = terminal := Option.some.inj (was.symm.trans retained)
  exact ⟨real, mapping, report, held, same.trans reported, kind, named, eligible⟩

variable (sound : LaunchSound eligibleLaunchLabel world)

include sound

theorem LaunchSound.shrink (shrinks : Shrinks world.store after) :
    LaunchSound eligibleLaunchLabel (world.withStore after) where
  active mapping kept := by
    have fresh := sound.active mapping (shrinks.active mapping kept)
    exact {
      drawn := shrinks.drawn ▸ fresh.drawn
      terminal := mt shrinks.isTerminal fresh.terminal
      attempts := fresh.attempts
      launched := fresh.launched }
  terminal terminal kept := shrinks.drawn ▸ sound.terminal terminal (shrinks.terminal terminal kept).1
  actions action member := by
    have before := sound.actions action (shrinks.actions.subset member)
    exact {
      terminal := shrinks.ofTerminal (shrinks.authorized action member) before.terminal
      drawn := shrinks.drawn ▸ before.drawn
      unused := before.unused
      launched := before.launched
      alone := before.alone }
  single := shrinks.actions.length_le.trans sound.single
  attempts attempt member := by
    have before := sound.attempts attempt member
    exact {
      terminal := fun kept => shrinks.ofTerminal kept (before.terminal (shrinks.isTerminal kept))
      started := before.started
      drawn := shrinks.drawn ▸ before.drawn
      launched := before.launched }
  distinct := sound.distinct
  consumed := sound.consumed
  once := sound.once
  used action member := shrinks.drawn ▸ sound.used action member
  inFlight execution member := sound.inFlight execution (shrinks.inFlight member)
  successful execution member := sound.successful execution (shrinks.successful member)
  known execution member := shrinks.drawn ▸ sound.known execution member
  launched execution member kept :=
    shrinks.remembered execution (sound.launched execution member (shrinks.isTerminal kept)) kept
  lost execution lost := (shrinks.lost execution lost).2.1
  kept execution lost := (shrinks.lost execution lost).2.2
  old execution lost := shrinks.drawn ▸ (shrinks.lost execution lost).1

theorem LaunchSound.authorized : ∀ action ∈ world.store.launchActions,
      IsTerminal world.store action.mapping.publicHandle := by
  intro action member
  obtain ⟨-, terminal, report, kept, -, -, named, -⟩ := (sound.actions action member).terminal
  exact ⟨terminal, kept, named⟩

theorem LaunchSound.keeps :
    ∀ execution, world.store.isLost execution = true → execution < world.store.drawn ∧
      (∀ terminal, world.store.latestTerminal = some terminal →
        terminal.isNamed .real execution = false) ∧
      ∀ mapping, world.store.active = some mapping → mapping.isNamed .real execution = false :=
  fun execution lost =>
    ⟨sound.old execution lost, sound.lost execution lost, sound.kept execution lost⟩

theorem LaunchSound.shrinks_self : Shrinks world.store world.store where
  active _ kept := kept
  terminal _ kept := ⟨kept, rfl⟩
  actions := List.Sublist.refl _
  authorized := sound.authorized
  inFlight := List.Subset.refl _
  successful := List.Subset.refl _
  remembered _ member _ := member
  lost := sound.keeps
  drawn := rfl

variable {kind : ExecutionKind}

theorem reserveStart_shrinks
    (reserved : world.store.reserveStart kind = some after) : Shrinks world.store after := by
  unfold ExecutionHandleStore.reserveStart at reserved
  split_ifs at reserved
  obtain rfl := Option.some.inj reserved
  exact { sound.shrinks_self with }

theorem releaseStart_shrinks : Shrinks world.store world.store.releaseStart :=
  { sound.shrinks_self with }

omit sound in
theorem reset_shrinks : Shrinks world.store world.store.reset := by
  constructor <;> simp [ExecutionHandleStore.reset, ExecutionHandleStore.empty,
    ExecutionHandleStore.isLost, IsTerminal]

variable {publicHandle : Nat}

omit sound in
theorem eq_of_isNamed {mapping : ExecutionMapping}
    (named : mapping.isNamed kind publicHandle = true) : mapping.publicHandle = publicHandle := by
  rw [ExecutionMapping.isNamed, Bool.and_eq_true, decide_eq_true_eq, decide_eq_true_eq] at named
  exact named.2

theorem dropActive_shrinks
    (named : world.store.active.any (fun mapping => mapping.isNamed kind publicHandle) = true) :
    Shrinks world.store { world.store.forgetLaunches publicHandle with active := none } := by
  obtain ⟨mapping, active, isNamed⟩ := (Option.any_eq_true _ _).mp named
  have other : ¬IsTerminal world.store publicHandle :=
    eq_of_isNamed isNamed ▸ (sound.active mapping active).terminal
  exact {
    active := fun _ kept => absurd kept (by simp)
    terminal := fun _ kept => ⟨kept, rfl⟩
    actions := List.filter_sublist
    authorized := fun action member => sound.authorized action (List.mem_of_mem_filter member)
    inFlight := List.filter_subset_self _
    successful := List.filter_subset_self _
    remembered := by
      intro execution member kept
      have different : execution ≠ publicHandle := by
        rintro rfl
        exact other kept
      exact List.mem_filter.mpr ⟨member, decide_eq_true different⟩
    lost := fun execution lost =>
      ⟨(sound.keeps execution lost).1, (sound.keeps execution lost).2.1, fun _ kept =>
        absurd kept (by simp)⟩
    drawn := rfl }

theorem dropTerminal_shrinks
    (named : world.store.latestTerminal.any (fun mapping => mapping.isNamed kind publicHandle) = true) :
    Shrinks world.store { world.store.forgetLaunches publicHandle with
      latestTerminal := none, latestTerminalReport := none } := by
  obtain ⟨terminal, kept, isNamed⟩ := (Option.any_eq_true _ _).mp named
  have same := eq_of_isNamed isNamed
  exact {
    active := fun _ active => active
    terminal := fun _ kept => absurd kept (by simp)
    actions := List.filter_sublist
    authorized := by
      intro action member
      obtain ⟨held, differs⟩ := List.mem_filter.mp member
      obtain ⟨other, terminalKept, otherNamed⟩ := sound.authorized action held
      obtain rfl : terminal = other := Option.some.inj (kept.symm.trans terminalKept)
      exact absurd (otherNamed.symm.trans same) (of_decide_eq_true differs)
    inFlight := List.filter_subset_self _
    successful := List.filter_subset_self _
    remembered := by
      rintro execution _ ⟨other, none, _⟩
      cases none
    lost := fun execution lost =>
      ⟨(sound.keeps execution lost).1, fun _ kept => absurd kept (by simp),
        (sound.keeps execution lost).2.2⟩
    drawn := rfl }

theorem forgetActive_shrinks (kind : ExecutionKind)
    (publicHandle : Nat) : Shrinks world.store (world.store.forgetActive kind publicHandle) := by
  unfold ExecutionHandleStore.forgetActive
  split_ifs with named
  · exact dropActive_shrinks sound named
  · exact sound.shrinks_self

theorem forgetMapping_shrinks (kind : ExecutionKind)
    (publicHandle : Nat) : Shrinks world.store (world.store.forgetMapping kind publicHandle) := by
  unfold ExecutionHandleStore.forgetMapping
  split_ifs with active terminal
  · exact dropActive_shrinks sound active
  · exact dropTerminal_shrinks sound terminal
  · exact sound.shrinks_self

theorem forgetMapping_forgotten (kind : ExecutionKind) (publicHandle : Nat) :
    (∀ terminal, (world.store.forgetMapping kind publicHandle).latestTerminal = some terminal →
      terminal.isNamed kind publicHandle = false) ∧
    ∀ mapping, (world.store.forgetMapping kind publicHandle).active = some mapping →
      mapping.isNamed kind publicHandle = false := by
  unfold ExecutionHandleStore.forgetMapping
  split_ifs with active terminal
  · refine ⟨fun terminal kept => ?_, fun mapping kept => absurd kept (by simp)⟩
    obtain ⟨mapping, held, named⟩ := (Option.any_eq_true _ _).mp active
    apply Bool.eq_false_iff.mpr
    intro isNamed
    have other := (sound.active mapping held).terminal
    rw [eq_of_isNamed named] at other
    exact other ⟨terminal, kept, eq_of_isNamed isNamed⟩
  · refine ⟨fun terminal kept => absurd kept (by simp), fun mapping kept => ?_⟩
    apply Bool.eq_false_iff.mpr
    intro isNamed
    exact active ((Option.any_eq_true _ _).mpr ⟨mapping, kept, isNamed⟩)
  · constructor
    · intro mapping kept
      apply Bool.eq_false_iff.mpr
      intro isNamed
      exact terminal ((Option.any_eq_true _ _).mpr ⟨mapping, kept, isNamed⟩)
    · intro mapping kept
      apply Bool.eq_false_iff.mpr
      intro isNamed
      exact active ((Option.any_eq_true _ _).mpr ⟨mapping, kept, isNamed⟩)

theorem LaunchSound.markLost
    (drawn : publicHandle < world.store.drawn) (mapping : Option ExecutionMapping) :
    LaunchSound eligibleLaunchLabel (world.withStore (world.store.markLost publicHandle mapping)) := by
  have forgets := forgetMapping_shrinks sound .real publicHandle
  obtain ⟨noTerminal, noActive⟩ := forgetMapping_forgotten sound .real publicHandle
  refine sound.shrink { forgets with lost := ?_ }
  intro execution lost
  have same : publicHandle = execution := by
    simpa [ExecutionHandleStore.markLost, ExecutionHandleStore.isLost] using lost
  exact same ▸ ⟨drawn, noTerminal, noActive⟩

end

section

variable {world : LaunchWorld} {after : ExecutionHandleStore}

/-- The active execution became the terminal one, with an action of its own or none. -/
structure Promotes (eligibleLaunchLabel : ExecutionMapping → Json → Option String)
    (before after : ExecutionHandleStore) : Prop where
  active : after.active = none
  terminal : before.active = after.latestTerminal ∧ after.latestTerminal.isSome
  actions : ∀ action ∈ after.launchActions, OfTerminal eligibleLaunchLabel after action ∧
    before.drawn ≤ action.actionHandle ∧ action.actionHandle < after.drawn
  single : after.launchActions.length ≤ 1
  inFlight : after.launchAttemptsInFlight ⊆ before.launchAttemptsInFlight
  successful : after.successfulLaunches ⊆ before.successfulLaunches
  lost : after.latestLost = before.latestLost
  drawn : before.drawn ≤ after.drawn

variable (sound : LaunchSound eligibleLaunchLabel world)

include sound

theorem LaunchSound.promote (promotes : Promotes eligibleLaunchLabel world.store after) :
    LaunchSound eligibleLaunchLabel (world.withStore after) := by
  obtain ⟨terminal, isTerminal⟩ := Option.isSome_iff_exists.mp promotes.terminal.2
  have active : world.store.active = some terminal := promotes.terminal.1.trans isTerminal
  have fresh := sound.active terminal active
  have named (execution : Nat) (kept : IsTerminal after execution) :
      execution = terminal.publicHandle := by
    obtain ⟨other, held, rfl⟩ := kept
    rw [Option.some.inj (held.symm.trans isTerminal)]
  exact {
    active := fun mapping kept => absurd (promotes.active.symm.trans kept) (by simp)
    terminal := by
      intro other kept
      rw [Option.some.inj (kept.symm.trans isTerminal)]
      exact Nat.lt_of_lt_of_le fresh.drawn promotes.drawn
    actions := by
      intro action member
      obtain ⟨owned, new, drawn⟩ := promotes.actions action member
      have ofTerminal : action.mapping.publicHandle = terminal.publicHandle := by
        obtain ⟨-, other, _, kept, -, -, same, -⟩ := owned
        exact named _ ⟨other, kept, same⟩
      exact {
        terminal := owned
        drawn
        unused := fun used => Nat.not_lt.mpr new (sound.used _ used)
        launched := ofTerminal ▸ fresh.launched
        alone := ofTerminal ▸ fresh.attempts }
    single := promotes.single
    attempts := by
      intro attempt member
      have before := sound.attempts attempt member
      exact {
        terminal := fun kept => absurd (named _ kept) (fresh.attempts attempt member)
        started := before.started
        drawn := Nat.lt_of_lt_of_le before.drawn promotes.drawn
        launched := before.launched }
    distinct := sound.distinct
    consumed := sound.consumed
    once := sound.once
    used := fun action member => Nat.lt_of_lt_of_le (sound.used action member) promotes.drawn
    inFlight := fun execution member => sound.inFlight execution (promotes.inFlight member)
    successful := fun execution member => sound.successful execution (promotes.successful member)
    known := fun execution member => Nat.lt_of_lt_of_le (sound.known execution member) promotes.drawn
    launched := fun execution member kept => absurd (named _ kept ▸ member) fresh.launched
    lost := by
      intro execution lost other kept
      rw [Option.some.inj (kept.symm.trans isTerminal)]
      refine sound.kept execution ?_ terminal active
      rwa [ExecutionHandleStore.isLost, ← promotes.lost]
    kept := fun _ _ mapping kept => absurd (promotes.active.symm.trans kept) (by simp)
    old := by
      intro execution lost
      refine Nat.lt_of_lt_of_le (sound.old execution ?_) promotes.drawn
      rwa [ExecutionHandleStore.isLost, ← promotes.lost] }

def withActions (store : ExecutionHandleStore) (extra : List LaunchActionRecord) (drawn : Nat) :
    ExecutionHandleStore :=
  { store with launchActions := extra ++ store.launchActions, drawn := drawn }

def isOther (store : ExecutionHandleStore) (action : LaunchActionRecord) : Bool :=
  store.latestTerminal.all fun previous => action.mapping.publicHandle ≠ previous.publicHandle

omit sound in
theorem isOther_iff {store : ExecutionHandleStore} {action : LaunchActionRecord} :
    isOther store action = true ↔ ¬IsTerminal store action.mapping.publicHandle := by
  rw [isOther, IsTerminal]
  cases store.latestTerminal with
  | none => simp
  | some previous => simp [ne_comm]

omit sound in
theorem forgetTerminalLaunches_actions (store : ExecutionHandleStore) :
    store.forgetTerminalLaunches.launchActions = store.launchActions.filter (isOther store) := by
  unfold ExecutionHandleStore.forgetTerminalLaunches isOther
  cases store.latestTerminal with
  | none => simp
  | some previous => rfl

omit sound in
theorem forgetTerminalLaunches_shrinks (store : ExecutionHandleStore) :
    store.forgetTerminalLaunches.launchActions.Sublist store.launchActions ∧
    store.forgetTerminalLaunches.launchAttemptsInFlight ⊆ store.launchAttemptsInFlight ∧
    store.forgetTerminalLaunches.successfulLaunches ⊆ store.successfulLaunches := by
  unfold ExecutionHandleStore.forgetTerminalLaunches
  cases store.latestTerminal with
  | none => exact ⟨List.Sublist.refl _, List.Subset.refl _, List.Subset.refl _⟩
  | some previous =>
    exact ⟨List.filter_sublist, List.filter_subset_self _, List.filter_subset_self _⟩

omit sound in
theorem forgetTerminalLaunches_rest (store : ExecutionHandleStore) :
    store.forgetTerminalLaunches.latestLost = store.latestLost ∧
    store.forgetTerminalLaunches.drawn = store.drawn := by
  unfold ExecutionHandleStore.forgetTerminalLaunches
  cases store.latestTerminal with
  | none => exact ⟨rfl, rfl⟩
  | some previous => exact ⟨rfl, rfl⟩

theorem markTerminal_promotes
    {extra : List LaunchActionRecord} {drawn : Nat} {kind : ExecutionKind} {publicHandle : Nat}
    {report : Json} (least : world.store.drawn ≤ drawn) (single : extra.length ≤ 1)
    (offered : ∀ action ∈ extra, kind = .real ∧ action.mapping.kind = .real ∧
      action.mapping.publicHandle = publicHandle ∧ world.store.drawn ≤ action.actionHandle ∧
      action.actionHandle < drawn ∧
      eligibleLaunchLabel action.mapping report = some action.label)
    (promoted : (withActions world.store extra drawn).markTerminalWithReport kind publicHandle report =
      some after) : Promotes eligibleLaunchLabel world.store after := by
  unfold ExecutionHandleStore.markTerminalWithReport at promoted
  split_ifs at promoted with named
  obtain rfl := Option.some.inj promoted
  obtain ⟨mapping, active, isNamed⟩ := (Option.any_eq_true _ _).mp named
  have active : world.store.active = some mapping := active
  have handle := eq_of_isNamed isNamed
  have realKind : mapping.kind = kind := by
    rw [ExecutionMapping.isNamed, Bool.and_eq_true, decide_eq_true_eq] at isNamed
    exact isNamed.1
  obtain ⟨actions, inFlight, successful⟩ := forgetTerminalLaunches_shrinks
    (withActions world.store extra drawn)
  obtain ⟨lost, kept⟩ := forgetTerminalLaunches_rest (withActions world.store extra drawn)
  have left : ∀ action ∈ (withActions world.store extra drawn).forgetTerminalLaunches.launchActions,
      action ∈ extra := by
    intro action member
    rw [forgetTerminalLaunches_actions] at member
    obtain ⟨held, other⟩ := List.mem_filter.mp member
    rcases List.mem_append.mp held with new | old
    · exact new
    · exact absurd (sound.authorized action old) (isOther_iff.mp other)
  have count : (withActions world.store extra drawn).forgetTerminalLaunches.launchActions.length ≤
      extra.length := by
    have dropped : world.store.launchActions.filter (isOther (withActions world.store extra drawn)) =
        [] := by
      apply List.filter_eq_nil_iff.mpr
      intro action old other
      exact isOther_iff.mp other (sound.authorized action old)
    rw [forgetTerminalLaunches_actions, withActions, List.filter_append, ← withActions, dropped,
      List.append_nil]
    exact List.length_filter_le _ _
  exact {
    active := rfl
    terminal := ⟨rfl, Option.isSome_iff_exists.mpr ⟨mapping, active⟩⟩
    actions := by
      intro action member
      obtain ⟨real, kind, same, new, old, eligible⟩ := offered action (left action member)
      refine ⟨⟨kind, mapping, report, active, rfl, realKind.trans real, handle.trans same.symm,
        eligible⟩, new, ?_⟩
      exact kept ▸ old
    single := count.trans single
    inFlight := inFlight
    successful := successful
    lost := lost
    drawn := by rw [kept]; exact least }

theorem launchAction_active
    {mapping active : ExecutionMapping} (isActive : world.store.active = some active)
    (same : active.publicHandle = mapping.publicHandle) {report : Json} :
    (eligibleLaunchLabel mapping report = none →
      world.store.launchAction eligibleLaunchLabel mapping report = (none, world.store)) ∧
    ∀ label, eligibleLaunchLabel mapping report = some label →
      world.store.launchAction eligibleLaunchLabel mapping report =
        (some (world.store.drawn, label), world.store.insertAction label mapping) := by
  have fresh := sound.active active isActive
  have free : ¬(mapping.publicHandle ∈ world.store.successfulLaunches ∨
      mapping.publicHandle ∈ world.store.launchAttemptsInFlight) := by
    rintro (successful | inFlight)
    · exact fresh.launched (same ▸ sound.successful _ successful)
    · obtain ⟨attempt, member, named⟩ := sound.inFlight _ inFlight
      exact fresh.attempts attempt member (named.trans same.symm)
  have missing : (world.store.launchActions.find? fun action =>
      action.mapping.publicHandle = mapping.publicHandle) = none := by
    apply List.find?_eq_none.mpr
    intro action member named
    have terminal := sound.authorized action member
    rw [of_decide_eq_true named, ← same] at terminal
    exact fresh.terminal terminal
  constructor
  · intro ineligible
    rw [ExecutionHandleStore.launchAction, if_neg free, missing]
    simp only [ineligible]
  · intro label eligible
    rw [ExecutionHandleStore.launchAction, if_neg free, missing]
    simp only [eligible]

omit sound in
theorem ownsActiveMapping_active {mapping : ExecutionMapping}
    (owns : world.store.ownsActiveMapping mapping = true) : ∃ active,
      world.store.active = some active ∧ active.kind = mapping.kind ∧
        active.publicHandle = mapping.publicHandle := by
  obtain ⟨active, isActive, same⟩ := (Option.any_eq_true _ _).mp owns
  simp only [Bool.and_eq_true, decide_eq_true_eq] at same
  exact ⟨active, isActive, same.1.1.1.1.1, same.1.1.1.1.2⟩

omit sound in
theorem markTerminal_active {store : ExecutionHandleStore} {active : ExecutionMapping}
    {kind : ExecutionKind} {publicHandle : Nat} (isActive : store.active = some active)
    (sameKind : active.kind = kind) (sameHandle : active.publicHandle = publicHandle) (report : Json) :
    ∃ after, store.markTerminalWithReport kind publicHandle report = some after := by
  refine ⟨_, if_pos ?_⟩
  rw [isActive, Option.any_some, ExecutionMapping.isNamed, sameKind, sameHandle]
  simp

theorem LaunchSound.retainReal
    {mapping : ExecutionMapping} (real : mapping.kind = .real) (report : Json) :
    LaunchSound eligibleLaunchLabel (world.withStore
      (world.store.retainTerminalRealExecution eligibleLaunchLabel mapping report)) := by
  by_cases refused : (world.store.terminalRetained .real mapping.publicHandle ||
      !world.store.ownsActiveMapping mapping) = true
  · rw [ExecutionHandleStore.retainTerminalRealExecution, if_pos refused]
    exact sound
  · rw [ExecutionHandleStore.retainTerminalRealExecution, if_neg refused]
    rw [Bool.or_eq_true, not_or, Bool.not_eq_true', Bool.not_eq_false] at refused
    obtain ⟨active, isActive, sameKind, sameHandle⟩ := ownsActiveMapping_active refused.2
    obtain ⟨ineligible, eligible⟩ := @launchAction_active _ _ sound mapping active isActive sameHandle
      report
    cases label : eligibleLaunchLabel mapping report with
    | none =>
      obtain ⟨after, promoted⟩ := markTerminal_active isActive (sameKind.trans real) sameHandle report
      simp only [ineligible label, Option.isSome_none, Bool.false_and, Bool.false_eq_true, if_false,
        promoted, Option.getD_some]
      exact sound.promote (@markTerminal_promotes _ _ _ sound [] _ _ _ _ (Nat.le_refl _)
        (Nat.zero_le _) (fun _ member => absurd member List.not_mem_nil) promoted)
    | some text =>
      obtain ⟨after, promoted⟩ := @markTerminal_active (world.store.insertAction text mapping) active
        _ _ isActive (sameKind.trans real) sameHandle report
      simp only [eligible text label, Option.isNone_some, Bool.and_false, Bool.false_eq_true,
        if_false, promoted, Option.getD_some]
      refine sound.promote (@markTerminal_promotes _ _ _ sound
        [{ actionHandle := world.store.drawn, label := text, mapping }] _ _ _ _ (Nat.le_succ _)
        (Nat.le_refl _) ?_ promoted)
      intro action member
      obtain rfl := List.mem_singleton.mp member
      exact ⟨rfl, real, rfl, Nat.le_refl _, Nat.lt_succ_self _, label⟩

end

section

variable {world : LaunchWorld} {actionHandle : Nat} {action : LaunchActionRecord}

theorem consumeLaunchAction_some {store after : ExecutionHandleStore}
    (consumed : store.consumeLaunchAction actionHandle = some (action, after)) :
    action ∈ store.launchActions ∧ action.actionHandle = actionHandle ∧
      after = { store with
        launchActions := store.launchActions.filter fun other => other.actionHandle ≠ actionHandle
        launchAttemptsInFlight := action.mapping.publicHandle :: store.launchAttemptsInFlight } := by
  obtain ⟨found, first, consumed⟩ := Option.bind_eq_some_iff.mp consumed
  split_ifs at consumed
  obtain ⟨rfl, rfl⟩ := Prod.mk.inj (Option.some.inj consumed)
  have named := List.find?_some first
  exact ⟨List.mem_of_find?_eq_some first, of_decide_eq_true named, rfl⟩

variable (sound : LaunchSound eligibleLaunchLabel world)

include sound

theorem LaunchSound.consumed_none (member : action ∈ world.store.launchActions) :
    (world.store.launchActions.filter fun other => other.actionHandle ≠ action.actionHandle) = [] := by
  apply List.filter_eq_nil_iff.mpr
  intro other listed differs
  have single := sound.single
  obtain ⟨only, actions⟩ : ∃ only, world.store.launchActions = [only] := by
    apply List.length_eq_one_iff.mp
    have filled := List.length_pos_of_mem member
    omega
  rw [actions, List.mem_singleton] at member listed
  rw [member, listed] at differs
  simp at differs

theorem LaunchSound.consume {after : ExecutionHandleStore}
    (consumed : world.store.consumeLaunchAction actionHandle = some (action, after)) :
    LaunchSound eligibleLaunchLabel { world with
      store := after
      attempts := action :: world.attempts
      started := actionHandle :: world.started } := by
  obtain ⟨member, rfl, rfl⟩ := consumeLaunchAction_some consumed
  have usable := sound.actions action member
  have isTerminal := sound.authorized action member
  have gone := sound.consumed_none member
  exact {
    active := by
      intro mapping active
      have fresh := sound.active mapping active
      exact {
        drawn := fresh.drawn
        terminal := fresh.terminal
        attempts := by
          intro attempt running
          rcases List.mem_cons.mp running with rfl | earlier
          · intro same
            exact fresh.terminal (same ▸ isTerminal)
          · exact fresh.attempts attempt earlier
        launched := fresh.launched }
    terminal := sound.terminal
    actions := by
      intro other listed
      rw [gone] at listed
      cases listed
    single := by
      rw [gone]
      exact Nat.zero_le 1
    attempts := by
      intro attempt running
      rcases List.mem_cons.mp running with rfl | earlier
      · obtain ⟨terminal, kept, named⟩ := isTerminal
        exact {
          terminal := fun _ => usable.terminal
          started := List.mem_cons_self
          drawn := named ▸ sound.terminal terminal kept
          launched := usable.launched }
      · have before := sound.attempts attempt earlier
        exact { before with started := List.mem_cons_of_mem _ before.started }
    distinct := by
      refine List.nodup_cons.mpr ⟨fun running => ?_, sound.distinct⟩
      obtain ⟨attempt, earlier, same⟩ := List.mem_map.mp running
      exact usable.alone attempt earlier same
    consumed := by
      refine List.nodup_cons.mpr ⟨fun running => ?_, sound.consumed⟩
      obtain ⟨attempt, earlier, same⟩ := List.mem_map.mp running
      have started := (sound.attempts attempt earlier).started
      rw [show attempt.actionHandle = action.actionHandle from same] at started
      exact usable.unused started
    once := List.nodup_cons.mpr ⟨usable.unused, sound.once⟩
    used := by
      intro used listed
      rcases List.mem_cons.mp listed with rfl | earlier
      · exact usable.drawn
      · exact sound.used used earlier
    inFlight := by
      intro execution listed
      rcases List.mem_cons.mp listed with rfl | earlier
      · exact ⟨action, List.mem_cons_self, rfl⟩
      · obtain ⟨attempt, running, same⟩ := sound.inFlight execution earlier
        exact ⟨attempt, List.mem_cons_of_mem _ running, same⟩
    successful := sound.successful
    known := sound.known
    launched := sound.launched
    lost := sound.lost
    kept := sound.kept
    old := sound.old }

omit sound in
theorem attempt?_some {attempt : LaunchActionRecord}
    (running : world.attempt? actionHandle = some attempt) :
    attempt ∈ world.attempts ∧ attempt.actionHandle = actionHandle :=
  ⟨List.mem_of_find?_eq_some running, of_decide_eq_true (List.find?_some running :)⟩

theorem LaunchSound.without_other
    {attempt other : LaunchActionRecord} (running : attempt ∈ world.attempts)
    (left : other ∈ world.without attempt.actionHandle) :
    other ∈ world.attempts ∧ other.mapping.publicHandle ≠ attempt.mapping.publicHandle := by
  obtain ⟨member, differs⟩ := List.mem_filter.mp left
  refine ⟨member, fun same => of_decide_eq_true differs ?_⟩
  rw [List.inj_on_of_nodup_map sound.distinct member running same]

theorem LaunchSound.mem_without
    {attempt other : LaunchActionRecord} (running : attempt ∈ world.attempts)
    (member : other ∈ world.attempts)
    (differs : other.mapping.publicHandle ≠ attempt.mapping.publicHandle) :
    other ∈ world.without attempt.actionHandle := by
  refine List.mem_filter.mpr ⟨member, decide_eq_true fun same => differs ?_⟩
  rw [List.inj_on_of_nodup_map sound.consumed member running same]

omit sound in
theorem without_sublist (actionHandle : Nat) :
    (world.without actionHandle).Sublist world.attempts := List.filter_sublist

theorem LaunchSound.succeed
    {attempt : LaunchActionRecord} (running : world.attempt? actionHandle = some attempt) :
    LaunchSound eligibleLaunchLabel { world with
      store := world.store.markLaunchSucceeded attempt.mapping.publicHandle
      attempts := world.without actionHandle
      launched := attempt.mapping.publicHandle :: world.launched } := by
  obtain ⟨member, rfl⟩ := attempt?_some running
  exact {
    active := by
      intro mapping active
      have fresh := sound.active mapping active
      exact {
        drawn := fresh.drawn
        terminal := fresh.terminal
        attempts := fun other left => fresh.attempts other (sound.without_other member left).1
        launched := by
          rw [List.mem_cons, not_or]
          exact ⟨(fresh.attempts attempt member).symm, fresh.launched⟩ }
    terminal := sound.terminal
    actions := by
      intro action listed
      obtain ⟨held, differs⟩ := List.mem_filter.mp listed
      have before := sound.actions action held
      exact {
        terminal := before.terminal
        drawn := before.drawn
        unused := before.unused
        launched := by
          rw [List.mem_cons, not_or]
          exact ⟨of_decide_eq_true differs, before.launched⟩
        alone := fun other left => before.alone other (sound.without_other member left).1 }
    single := (List.length_filter_le _ _).trans sound.single
    attempts := by
      intro other left
      obtain ⟨held, differs⟩ := sound.without_other member left
      have before := sound.attempts other held
      exact { before with
        launched := by
          rw [List.mem_cons, not_or]
          exact ⟨differs, before.launched⟩ }
    distinct := sound.distinct.sublist ((without_sublist _).map _)
    consumed := sound.consumed.sublist ((without_sublist _).map _)
    once := sound.once
    used := sound.used
    inFlight := by
      intro execution listed
      obtain ⟨held, differs⟩ := List.mem_filter.mp listed
      obtain ⟨other, runs, rfl⟩ := sound.inFlight execution held
      exact ⟨other, sound.mem_without member runs (of_decide_eq_true differs), rfl⟩
    successful := by
      intro execution listed
      rcases List.mem_cons.mp listed with rfl | earlier
      · exact List.mem_cons_self
      · exact List.mem_cons_of_mem _ (sound.successful execution earlier)
    known := by
      intro execution listed
      rcases List.mem_cons.mp listed with rfl | earlier
      · exact (sound.attempts attempt member).drawn
      · exact sound.known execution earlier
    launched := by
      intro execution listed kept
      rcases List.mem_cons.mp listed with rfl | earlier
      · exact List.mem_cons_self
      · exact List.mem_cons_of_mem _ (sound.launched execution earlier kept)
    lost := sound.lost
    kept := sound.kept
    old := sound.old }

def landed (store : ExecutionHandleStore) (publicHandle : Nat) : ExecutionHandleStore :=
  { store with launchAttemptsInFlight := store.launchAttemptsInFlight.filter (· ≠ publicHandle) }

theorem LaunchSound.land {attempt : LaunchActionRecord} (member : attempt ∈ world.attempts) :
    LaunchSound eligibleLaunchLabel { world with
      store := landed world.store attempt.mapping.publicHandle
      attempts := world.without attempt.actionHandle } where
  active mapping active := by
    have fresh := sound.active mapping active
    exact { fresh with
      attempts := fun other left => fresh.attempts other (sound.without_other member left).1 }
  terminal := sound.terminal
  actions action listed := by
    have before := sound.actions action listed
    exact { before with
      alone := fun other left => before.alone other (sound.without_other member left).1 }
  single := sound.single
  attempts other left := by
    have before := sound.attempts other (sound.without_other member left).1
    exact { before with }
  distinct := sound.distinct.sublist ((without_sublist _).map _)
  consumed := sound.consumed.sublist ((without_sublist _).map _)
  once := sound.once
  used := sound.used
  inFlight execution listed := by
    obtain ⟨held, differs⟩ := List.mem_filter.mp listed
    obtain ⟨other, runs, rfl⟩ := sound.inFlight execution held
    exact ⟨other, sound.mem_without member runs (of_decide_eq_true differs), rfl⟩
  successful := sound.successful
  known := sound.known
  launched := sound.launched
  lost := sound.lost
  kept := sound.kept
  old := sound.old

theorem LaunchSound.insertAction
    {attempt : LaunchActionRecord} (owned : OfTerminal eligibleLaunchLabel world.store attempt)
    (none : world.store.launchActions = [])
    (launched : attempt.mapping.publicHandle ∉ world.launched)
    (alone : ∀ other ∈ world.attempts,
      other.mapping.publicHandle ≠ attempt.mapping.publicHandle) :
    LaunchSound eligibleLaunchLabel
      (world.withStore (world.store.insertAction attempt.label attempt.mapping)) where
  active mapping active := by
    have fresh := sound.active mapping active
    exact { fresh with drawn := Nat.lt_succ_of_lt fresh.drawn }
  terminal terminal kept := Nat.lt_succ_of_lt (sound.terminal terminal kept)
  actions action listed := by
    rw [show (world.withStore _).store.launchActions = _ :: world.store.launchActions from rfl, none,
      List.mem_singleton] at listed
    subst listed
    exact {
      terminal := owned
      drawn := Nat.lt_succ_self _
      unused := fun used => Nat.lt_irrefl _ (sound.used _ used)
      launched
      alone }
  single := by
    rw [show (world.withStore _).store.launchActions = _ :: world.store.launchActions from rfl, none]
    exact Nat.le_refl 1
  attempts other running := by
    have before := sound.attempts other running
    exact { before with drawn := Nat.lt_succ_of_lt before.drawn }
  distinct := sound.distinct
  consumed := sound.consumed
  once := sound.once
  used action used := Nat.lt_succ_of_lt (sound.used action used)
  inFlight := sound.inFlight
  successful := sound.successful
  known execution listed := Nat.lt_succ_of_lt (sound.known execution listed)
  launched := sound.launched
  lost := sound.lost
  kept := sound.kept
  old execution lost := Nat.lt_succ_of_lt (sound.old execution lost)

theorem LaunchSound.no_action {attempt : LaunchActionRecord} (member : attempt ∈ world.attempts)
    (kept : IsTerminal world.store attempt.mapping.publicHandle) :
    world.store.launchActions = [] := by
  apply List.eq_nil_iff_forall_not_mem.mpr
  intro action listed
  obtain ⟨terminal, held, named⟩ := kept
  obtain ⟨other, alsoHeld, sameNamed⟩ := sound.authorized action listed
  rw [Option.some.inj (alsoHeld.symm.trans held)] at sameNamed
  exact (sound.actions action listed).alone attempt member (named.symm.trans sameNamed)

omit sound in
theorem reissues_iff {store : ExecutionHandleStore} {attempt : LaunchActionRecord} :
    store.reissues eligibleLaunchLabel attempt = true ↔
      attempt.mapping.publicHandle ∉ store.successfulLaunches ∧
      store.isLost attempt.mapping.publicHandle = false ∧
      (∃ terminal, store.latestTerminal = some terminal ∧
        terminal.isNamed attempt.mapping.kind attempt.mapping.publicHandle = true) ∧
      ∃ report, store.latestTerminalReport = some report ∧
        eligibleLaunchLabel attempt.mapping report = some attempt.label := by
  simp only [ExecutionHandleStore.reissues, Bool.and_eq_true, decide_eq_true_eq, Bool.not_eq_true',
    Option.any_eq_true, and_assoc]

theorem LaunchSound.fail
    {attempt : LaunchActionRecord} (running : world.attempt? actionHandle = some attempt) :
    LaunchSound eligibleLaunchLabel { world with
      store := world.store.completeFailedLaunch eligibleLaunchLabel attempt
      attempts := world.without actionHandle } := by
  obtain ⟨member, rfl⟩ := attempt?_some running
  have landed := sound.land member
  rw [ExecutionHandleStore.completeFailedLaunch]
  split_ifs with again
  · rw [Bool.and_eq_true] at again
    obtain ⟨-, -, ⟨terminal, kept, named⟩, -⟩ := reissues_iff.mp again.1
    have isTerminal : IsTerminal world.store attempt.mapping.publicHandle :=
      ⟨terminal, kept, eq_of_isNamed named⟩
    have before := sound.attempts attempt member
    exact landed.insertAction (before.terminal isTerminal) (sound.no_action member isTerminal)
      before.launched fun other left => (sound.without_other member left).2
  · exact landed

end

section

variable {world next : LaunchWorld}

theorem LaunchSound.bindStarted (sound : LaunchSound eligibleLaunchLabel world)
    {kind : ExecutionKind} (sidecarId reviewHandle : String) (review : ReviewedPlanSnapshot) :
    LaunchSound eligibleLaunchLabel
      (world.withStore (world.store.bindStarted kind sidecarId reviewHandle review)) where
  active mapping active := by
    obtain rfl := Option.some.inj active
    exact {
      drawn := Nat.lt_succ_self _
      terminal := by
        rintro ⟨terminal, kept, same⟩
        exact Nat.ne_of_lt (sound.terminal terminal kept) same
      attempts := fun attempt running => Nat.ne_of_lt (sound.attempts attempt running).drawn
      launched := fun launched => Nat.lt_irrefl _ (sound.known _ launched) }
  terminal terminal kept := Nat.lt_succ_of_lt (sound.terminal terminal kept)
  actions action listed := by
    have before := sound.actions action listed
    exact { before with drawn := Nat.lt_succ_of_lt before.drawn }
  single := sound.single
  attempts other running := by
    have before := sound.attempts other running
    exact { before with drawn := Nat.lt_succ_of_lt before.drawn }
  distinct := sound.distinct
  consumed := sound.consumed
  once := sound.once
  used action used := Nat.lt_succ_of_lt (sound.used action used)
  inFlight := sound.inFlight
  successful := sound.successful
  known execution listed := Nat.lt_succ_of_lt (sound.known execution listed)
  launched := sound.launched
  lost := sound.lost
  kept execution lost mapping active := by
    obtain rfl := Option.some.inj active
    have before := Nat.ne_of_lt (sound.old execution lost)
    simp [ExecutionMapping.isNamed, Ne.symm before]
  old execution lost := Nat.lt_succ_of_lt (sound.old execution lost)

/-- Every event keeps the invariant of the launch records. -/
theorem LaunchSound.step (sound : LaunchSound eligibleLaunchLabel world) {event : LaunchEvent}
    (taken : world.step eligibleLaunchLabel event = some next) :
    LaunchSound eligibleLaunchLabel next := by
  cases event with
  | reserveStart kind =>
    obtain ⟨after, reserved, rfl⟩ := Option.map_eq_some_iff.mp taken
    exact sound.shrink (reserveStart_shrinks sound reserved)
  | releaseStart =>
    obtain rfl := Option.some.inj taken
    exact sound.shrink (releaseStart_shrinks sound)
  | bindStarted kind sidecarId reviewHandle review =>
    simp only [LaunchWorld.step] at taken
    split_ifs at taken
    obtain rfl := Option.some.inj taken
    exact sound.bindStarted sidecarId reviewHandle review
  | retainReal mapping report =>
    simp only [LaunchWorld.step] at taken
    split_ifs at taken with real
    obtain rfl := Option.some.inj taken
    exact sound.retainReal real report
  | retainSimulated publicHandle report =>
    obtain ⟨after, promoted, rfl⟩ := Option.map_eq_some_iff.mp taken
    exact sound.promote (@markTerminal_promotes _ _ _ sound [] _ _ _ _ (Nat.le_refl _)
      (Nat.zero_le _) (fun _ member => absurd member List.not_mem_nil) promoted)
  | forgetSimulated publicHandle =>
    obtain rfl := Option.some.inj taken
    exact sound.shrink (forgetActive_shrinks sound .simulated publicHandle)
  | loseExecution publicHandle =>
    simp only [LaunchWorld.step] at taken
    split_ifs at taken with drawn
    obtain rfl := Option.some.inj taken
    have forgets := forgetMapping_shrinks sound .real publicHandle
    exact (sound.shrink forgets).markLost (forgets.drawn ▸ drawn) _
  | loseRuntime publicHandle =>
    simp only [LaunchWorld.step] at taken
    split_ifs at taken with drawn
    obtain rfl := Option.some.inj taken
    exact (sound.shrink reset_shrinks).markLost drawn _
  | reset =>
    obtain rfl := Option.some.inj taken
    exact sound.shrink reset_shrinks
  | poll publicHandle =>
    obtain rfl := Option.some.inj taken
    exact sound
  | consume actionHandle =>
    obtain ⟨⟨action, after⟩, consumed, rfl⟩ := Option.map_eq_some_iff.mp taken
    exact sound.consume consumed
  | succeed actionHandle =>
    obtain ⟨attempt, running, rfl⟩ := Option.map_eq_some_iff.mp taken
    exact sound.succeed running
  | fail actionHandle =>
    obtain ⟨attempt, running, rfl⟩ := Option.map_eq_some_iff.mp taken
    exact sound.fail running

theorem LaunchWorld.Reachable.sound (reached : world.Reachable eligibleLaunchLabel) :
    LaunchSound eligibleLaunchLabel world := by
  induction reached with
  | initial => exact LaunchSound.initial
  | step _ taken ih => exact ih.step taken

def StillEligible (eligibleLaunchLabel : ExecutionMapping → Json → Option String)
    (store : ExecutionHandleStore) (attempt : LaunchActionRecord) : Prop :=
  ∃ terminal report, store.latestTerminal = some terminal ∧
    terminal.publicHandle = attempt.mapping.publicHandle ∧
    store.latestTerminalReport = some report ∧
    (eligibleLaunchLabel attempt.mapping report).isSome

def authorities (world : LaunchWorld) (execution : Nat) : List LaunchActionRecord :=
  (world.store.launchActions ++ world.attempts).filter fun record =>
    record.mapping.publicHandle = execution

/-- Every action starts at most one attempt, an execution has at most one action or attempt, none
after a successful launch, and a fresh one after a failed attempt while it still offers its launch. -/
structure OneShot (eligibleLaunchLabel : ExecutionMapping → Json → Option String)
    (world : LaunchWorld) : Prop where
  once : world.started.Nodup
  single : ∀ execution, (authorities world execution).length ≤ 1
  finished : ∀ execution ∈ world.launched, authorities world execution = [] ∧
    world.store.retainedLaunchAction execution = none
  retried : ∀ actionHandle attempt next, world.attempt? actionHandle = some attempt →
    world.step eligibleLaunchLabel (.fail actionHandle) = some next →
    StillEligible eligibleLaunchLabel next.store attempt →
    ∃ action, authorities next attempt.mapping.publicHandle = [action] ∧
      action ∈ next.store.launchActions ∧ action.actionHandle ∉ next.started ∧
      next.store.retainedLaunchAction attempt.mapping.publicHandle =
        some (action.actionHandle, action.label)

variable (sound : LaunchSound eligibleLaunchLabel world)

include sound

theorem LaunchSound.attempts_le (execution : Nat) :
    (world.attempts.filter fun attempt => attempt.mapping.publicHandle = execution).length ≤ 1 := by
  have count := List.nodup_iff_count_le_one.mp sound.distinct execution
  rw [List.count_eq_countP, List.countP_map, List.countP_eq_length_filter] at count
  refine le_of_eq_of_le (congrArg List.length (List.filter_congr fun attempt _ => ?_)) count
  exact (Bool.beq_eq_decide_eq _ _).symm

theorem LaunchSound.action_alone
    {action : LaunchActionRecord} (member : action ∈ world.store.launchActions) :
    (world.attempts.filter fun attempt =>
      attempt.mapping.publicHandle = action.mapping.publicHandle) = [] := by
  apply List.filter_eq_nil_iff.mpr
  intro attempt running same
  exact (sound.actions action member).alone attempt running (of_decide_eq_true same)

theorem LaunchSound.authorities_le (execution : Nat) :
    (authorities world execution).length ≤ 1 := by
  rw [authorities, List.filter_append, List.length_append]
  by_cases offered : ∃ action ∈ world.store.launchActions,
      action.mapping.publicHandle = execution
  · obtain ⟨action, member, rfl⟩ := offered
    rw [sound.action_alone member]
    exact (List.length_filter_le _ _).trans sound.single
  · have none : (world.store.launchActions.filter fun action =>
        action.mapping.publicHandle = execution) = [] := by
      apply List.filter_eq_nil_iff.mpr
      intro action member same
      exact offered ⟨action, member, of_decide_eq_true same⟩
    rw [none]
    simpa using sound.attempts_le execution

omit sound in
theorem retainedLaunchAction_none {store : ExecutionHandleStore} {execution : Nat}
    (none : ∀ action ∈ store.launchActions, action.mapping.publicHandle ≠ execution) :
    store.retainedLaunchAction execution = .none := by
  have missing : (store.launchActions.find? fun action =>
      action.mapping.publicHandle = execution) = .none :=
    List.find?_eq_none.mpr fun action member same => none action member (of_decide_eq_true same)
  rw [ExecutionHandleStore.retainedLaunchAction, missing]
  split_ifs <;> rfl

theorem LaunchSound.finished {execution : Nat}
    (launched : execution ∈ world.launched) : authorities world execution = [] ∧
      world.store.retainedLaunchAction execution = none := by
  have noAction : ∀ action ∈ world.store.launchActions,
      action.mapping.publicHandle ≠ execution := by
    rintro action member rfl
    exact (sound.actions action member).launched launched
  refine ⟨List.filter_eq_nil_iff.mpr ?_, retainedLaunchAction_none noAction⟩
  intro record member same
  have same := of_decide_eq_true same
  rcases List.mem_append.mp member with action | attempt
  · exact noAction record action same
  · exact (sound.attempts record attempt).launched (same ▸ launched)

omit sound in
theorem completeFailedLaunch_kept (store : ExecutionHandleStore) (attempt : LaunchActionRecord) :
    (store.completeFailedLaunch eligibleLaunchLabel attempt).latestTerminal = store.latestTerminal ∧
    (store.completeFailedLaunch eligibleLaunchLabel attempt).latestTerminalReport =
      store.latestTerminalReport := by
  rw [ExecutionHandleStore.completeFailedLaunch]
  split_ifs
  · exact ⟨rfl, rfl⟩
  · exact ⟨rfl, rfl⟩

theorem LaunchSound.completeFailedLaunch_eq
    {attempt : LaunchActionRecord} (member : attempt ∈ world.attempts)
    (eligible : StillEligible eligibleLaunchLabel world.store attempt) :
    world.store.completeFailedLaunch eligibleLaunchLabel attempt =
      (landed world.store attempt.mapping.publicHandle).insertAction attempt.label attempt.mapping := by
  obtain ⟨terminal, report, kept, named, reported, offered⟩ := eligible
  have isTerminal : IsTerminal world.store attempt.mapping.publicHandle := ⟨terminal, kept, named⟩
  have before := sound.attempts attempt member
  obtain ⟨real, other, otherReport, alsoKept, alsoReported, kind, -, label⟩ :=
    before.terminal isTerminal
  obtain rfl : terminal = other := Option.some.inj (kept.symm.trans alsoKept)
  obtain rfl : report = otherReport := Option.some.inj (reported.symm.trans alsoReported)
  have isNamed : terminal.isNamed .real attempt.mapping.publicHandle = true := by
    simp [ExecutionMapping.isNamed, kind, named]
  have again : (landed world.store attempt.mapping.publicHandle).reissues eligibleLaunchLabel attempt =
      true := by
    refine reissues_iff.mpr ⟨fun successful => before.launched (sound.successful _ successful), ?_,
      ⟨terminal, kept, real ▸ isNamed⟩, report, reported, label⟩
    apply Bool.eq_false_iff.mpr
    intro lost
    have unnamed := sound.lost _ lost terminal kept
    rw [isNamed] at unnamed
    cases unnamed
  have none := sound.no_action member isTerminal
  rw [ExecutionHandleStore.completeFailedLaunch]
  refine if_pos ?_
  rw [Bool.and_eq_true]
  refine ⟨again, ?_⟩
  simp [none]

theorem LaunchSound.retried {actionHandle : Nat}
    {attempt : LaunchActionRecord} (running : world.attempt? actionHandle = some attempt)
    (failed : world.step eligibleLaunchLabel (.fail actionHandle) = some next)
    (eligible : StillEligible eligibleLaunchLabel next.store attempt) :
    ∃ action, authorities next attempt.mapping.publicHandle = [action] ∧
      action ∈ next.store.launchActions ∧ action.actionHandle ∉ next.started ∧
      next.store.retainedLaunchAction attempt.mapping.publicHandle =
        some (action.actionHandle, action.label) := by
  obtain ⟨found, other, rfl⟩ := Option.map_eq_some_iff.mp failed
  obtain rfl : attempt = found := Option.some.inj (running.symm.trans other)
  obtain ⟨member, rfl⟩ := attempt?_some running
  obtain ⟨sameTerminal, sameReport⟩ :=
    @completeFailedLaunch_kept eligibleLaunchLabel world.store attempt
  have before : StillEligible eligibleLaunchLabel world.store attempt := by
    obtain ⟨terminal, report, kept, named, reported, offered⟩ := eligible
    exact ⟨terminal, report, sameTerminal.symm.trans kept, named, sameReport.symm.trans reported,
      offered⟩
  have isTerminal : IsTerminal world.store attempt.mapping.publicHandle := by
    obtain ⟨terminal, -, kept, named, -⟩ := before
    exact ⟨terminal, kept, named⟩
  rw [sound.completeFailedLaunch_eq member before]
  have none := sound.no_action member isTerminal
  refine ⟨⟨world.store.drawn, attempt.label, attempt.mapping⟩, ?_, List.mem_cons_self, ?_, ?_⟩
  · have left : (world.without attempt.actionHandle).filter (fun record =>
        record.mapping.publicHandle = attempt.mapping.publicHandle) = [] := by
      apply List.filter_eq_nil_iff.mpr
      intro record kept same
      exact (sound.without_other member kept).2 (of_decide_eq_true same)
    rw [authorities, List.filter_append, left]
    simp [ExecutionHandleStore.insertAction, landed, none]
  · intro used
    exact Nat.lt_irrefl _ (sound.used _ used)
  · have fresh : attempt.mapping.publicHandle ∉ world.store.successfulLaunches := fun successful =>
      (sound.attempts attempt member).launched (sound.successful _ successful)
    simp [ExecutionHandleStore.retainedLaunchAction, ExecutionHandleStore.insertAction, landed, fresh]

omit sound in
theorem LaunchWorld.Reachable.oneShot (reached : world.Reachable eligibleLaunchLabel) :
    OneShot eligibleLaunchLabel world where
  once := reached.sound.once
  single := reached.sound.authorities_le
  finished _ := reached.sound.finished
  retried _ _ _ := reached.sound.retried

end

end EmuChef.App
