import EmuChef.Adb.Session
import EmuChef.Lib.History

/-! Sessions keep the identity they were configured with, and use `su` only right after a probe that
granted root to a session with reviewed authority. -/

namespace EmuChef.Adb

open Program
open History

section

def commandEvent (args : List String) (check : Bool) (operation : ProcessOperation)
    (answer : Except AdbCommandError AdbCommandResult) : SessionEvent :=
  ⟨.command args check operation, answer⟩

def rootProbeEvent (mode : RootShellMode) (answer : Except AdbCommandError AdbCommandResult) :
    SessionEvent :=
  ⟨.rootProbe mode, answer⟩

inductive Sampled : List SessionEvent → DeviceIdentityFingerprint → Prop
  | of {getprop androidId : AdbCommandResult} {properties : ParsedGetpropSample} {id : String}
      {fingerprint : DeviceIdentityFingerprint}
      (parsed : parseGetpropSample getprop.stdout = some properties)
      (identified : parseAndroidIdOutput androidId.stdout = some id)
      (complete : properties.intoFingerprint id = some fingerprint) :
      Sampled [commandEvent getpropArguments true .probe (.ok getprop),
        commandEvent androidIdArguments true .probe (.ok androidId)] fingerprint

def Observed (earlier : List SessionEvent) (fingerprint : DeviceIdentityFingerprint) : Prop :=
  ∃ start first second, earlier = start ++ (first ++ second) ∧
    Sampled first fingerprint ∧ Sampled second fingerprint

def configuresIdentity : SessionOperation → Bool
  | .configureIdentity _ => true
  | _ => false

def configuresAuthority : SessionOperation → Bool
  | .configureAuthority _ => true
  | _ => false

def isProtected : SessionOperation → Bool
  | .body | .returned true => true
  | _ => false

def BaselineLaw (baseline : Option DeviceIdentityFingerprint) (event : SessionEvent)
    (earlier : List SessionEvent) : Prop :=
  isProtected event.operation = true →
    ∃ fingerprint, baseline = some fingerprint ∧ Observed earlier fingerprint

def Reviewed (serial : Option String) (target : Option TargetDeviceBinding)
    (fingerprint : DeviceIdentityFingerprint) : Prop :=
  ∃ binding ready, target = some binding ∧ reviewedTarget binding = .ready ready ∧
    serial = some ready.serial ∧ matchesReviewedTarget fingerprint ready = true

def IdentityKept (serial : Option String) (target : Option TargetDeviceBinding)
    (segment : List SessionEvent) : Prop :=
  ∃ baseline : Option DeviceIdentityFingerprint,
    (∀ fingerprint, baseline = some fingerprint → Reviewed serial target fingerprint) ∧
      Preceded (BaselineLaw baseline) segment

def lastAuthority (events : List SessionEvent) : Bool :=
  events.foldl (fun held event =>
    match event.operation with
    | .configureAuthority reviewedRootAuthorized => reviewedRootAuthorized
    | _ => held) false

def ElevatedUnder (authority : Bool) (event : SessionEvent) (earlier : List SessionEvent) : Prop :=
  ∀ args mode check operation, event.operation = .shell args true mode check operation →
    authority = true ∧ ∃ start result, earlier = start ++ [rootProbeEvent mode (.ok result)] ∧
      classifyRootResult result = .granted

def ElevatedLaw (event : SessionEvent) (earlier : List SessionEvent) : Prop :=
  ElevatedUnder (lastAuthority earlier) event earlier

structure SessionLaw (serial : Option String) (covered : Option TargetDeviceBinding → Prop)
    (trace : List SessionEvent) : Prop where
  identity : ∀ before target mark segment after, covered target →
    trace = before ++ ⟨.configureIdentity target, mark⟩ :: (segment ++ after) →
    (∀ event ∈ segment, configuresIdentity event.operation = false) →
    IdentityKept serial target segment
  elevated : Preceded ElevatedLaw trace

variable {α : Type}

def SessionCall.isConfiguration : SessionCall α → Bool
  | .configureIdentity _ => true
  | _ => false

/-- Every run of the calls obeys the law wherever a covered target is configured, and no baseline
is replaced before the next configuration. -/
structure KeepsSession (covered : Option TargetDeviceBinding → Prop) (serial : Option String)
    (calls : List (SessionCall α)) : Prop where
  law : ∀ trace device, Runs (runSession (.new serial) calls) trace device →
    SessionLaw serial covered trace
  baseline : ∀ earlier later, calls = earlier ++ later →
    (∀ call ∈ later, call.isConfiguration = false) →
    ∀ before middle after last, Runs (runSession (.new serial) earlier) before middle →
      Runs (runSession middle later) after last →
      ∀ fingerprint, middle.identity.baseline = some fingerprint →
        last.identity.baseline = some fingerprint

end

def IsProbe (operation : SessionOperation) : Prop :=
  ∃ args, operation = .command args true .probe

theorem only_runIdentityCommand (args : List String) : Only IsProbe (runIdentityCommand args) :=
  only_request.mpr ⟨args, rfl⟩

theorem only_collectSample : Only IsProbe collectSample := by
  refine only_bind (only_runIdentityCommand _) ?_
  intro getprop
  split
  · exact only_pure
  · split
    · exact only_pure
    · refine only_bind (only_runIdentityCommand _) ?_
      intro androidId
      split <;> exact only_pure

theorem only_collectFingerprint : Only IsProbe collectFingerprint := by
  refine only_bind only_collectSample ?_
  rintro (error | _ | first)
  · exact only_pure
  · exact only_pure
  · refine only_bind only_collectSample ?_
    rintro (error | _ | second)
    · exact only_pure
    · exact only_pure
    · dsimp only
      split_ifs <;> exact only_pure

theorem identityOutput_some {answer : Except AdbCommandError AdbCommandResult} {stdout : String}
    (printed : identityOutput answer = .ok (some stdout)) :
    ∃ result, answer = .ok result ∧ result.stdout = stdout := by
  cases answer with
  | ok result => exact ⟨result, rfl, by simpa [identityOutput] using printed⟩
  | error error => cases error <;> simp [identityOutput] at printed

theorem collectSample_sampled {events : List SessionEvent}
    {fingerprint : DeviceIdentityFingerprint}
    (ran : Runs collectSample events (.ok (some fingerprint))) : Sampled events fingerprint := by
  obtain ⟨getprop, rest, read, rfl⟩ := runs_request_bind.mp ran
  split at read
  · simp at read
  next output printed =>
    split at read
    · simp at read
    next properties parsed =>
      obtain ⟨androidId, last, ended, rfl⟩ := runs_request_bind.mp read
      split at ended
      · simp at ended
      next idOutput idPrinted =>
        obtain ⟨rfl, shown⟩ := runs_pure.mp ended
        obtain ⟨stdout, rfl, readable⟩ := Option.bind_eq_some_iff.mp parsed
        obtain ⟨id, found, complete⟩ := Option.bind_eq_some_iff.mp (Except.ok.inj shown).symm
        obtain ⟨idStdout, rfl, identified⟩ := Option.bind_eq_some_iff.mp found
        obtain ⟨result, rfl, rfl⟩ := identityOutput_some printed
        obtain ⟨idResult, rfl, rfl⟩ := identityOutput_some idPrinted
        exact .of readable identified complete

theorem collectFingerprint_observed {events : List SessionEvent}
    {fingerprint : DeviceIdentityFingerprint}
    (ran : Runs collectFingerprint events (.ok (some fingerprint))) :
    Observed events fingerprint := by
  obtain ⟨first, before, rest, sampled, ran, rfl⟩ := runs_bind.mp ran
  rcases first with error | _ | first
  · simp at ran
  · simp at ran
  · obtain ⟨second, middle, after, again, ran, rfl⟩ := runs_bind.mp ran
    rcases second with error | _ | second
    · simp at ran
    · simp at ran
    · dsimp only at ran
      split_ifs at ran with agree
      · obtain ⟨rfl, same⟩ := runs_pure.mp ran
        obtain rfl : fingerprint = first := by simpa using same
        obtain rfl := compareSamples_same.mp agree
        exact ⟨[], before, middle, by simp, collectSample_sampled sampled,
          collectSample_sampled again⟩
      · simp at ran

section

def Sound (device : RealAdbDevice) : Prop :=
  ∀ fingerprint, device.identity.baseline = some fingerprint →
    ∃ ready, device.identity.target = some (.ready ready) ∧ device.serial = some ready.serial ∧
      matchesReviewedTarget fingerprint ready = true

structure HoldsIdentity (before : RealAdbDevice) (events : List SessionEvent)
    (after : RealAdbDevice) : Prop where
  serial : after.serial = before.serial
  enabled : after.identity.enabled = before.identity.enabled
  target : after.identity.target = before.identity.target
  baseline : ∀ fingerprint, before.identity.baseline = some fingerprint →
    after.identity.baseline = some fingerprint
  sound : Sound before → Sound after
  unconfigured : ∀ event ∈ events, configuresIdentity event.operation = false
  guarded : before.identity.enabled = true →
    Preceded (BaselineLaw after.identity.baseline) events

structure HoldsAuthority (before : RealAdbDevice) (events : List SessionEvent)
    (after : RealAdbDevice) : Prop where
  authority : after.rootAuthority.reviewedRootAuthorized =
    before.rootAuthority.reviewedRootAuthorized
  unconfigured : ∀ event ∈ events, configuresAuthority event.operation = false
  elevated : Preceded (ElevatedUnder before.rootAuthority.reviewedRootAuthorized) events

structure Moved (before : RealAdbDevice) (events : List SessionEvent) (after : RealAdbDevice) :
    Prop where
  identity : HoldsIdentity before events after
  authority : HoldsAuthority before events after

theorem stable_baselineLaw (baseline : Option DeviceIdentityFingerprint) :
    Stable (BaselineLaw baseline) := by
  intro event earlier more obeyed shielded
  obtain ⟨fingerprint, same, start, first, second, rfl, sampled, again⟩ := obeyed shielded
  exact ⟨fingerprint, same, more ++ start, first, second, by simp, sampled, again⟩

theorem stable_elevatedUnder (authority : Bool) : Stable (ElevatedUnder authority) := by
  intro event earlier more obeyed args mode check operation issued
  obtain ⟨held, start, result, rfl, granted⟩ := obeyed args mode check operation issued
  exact ⟨held, more ++ start, result, by simp, granted⟩

variable {second : RealAdbDevice} {before : List SessionEvent}

theorem HoldsIdentity.trans {first third : RealAdbDevice} {after : List SessionEvent}
    (head : HoldsIdentity first before second) (tail : HoldsIdentity second after third) :
    HoldsIdentity first (before ++ after) third where
  serial := tail.serial.trans head.serial
  enabled := tail.enabled.trans head.enabled
  target := tail.target.trans head.target
  baseline fingerprint held := tail.baseline fingerprint (head.baseline fingerprint held)
  sound sound := tail.sound (head.sound sound)
  unconfigured := by
    intro event found
    rcases List.mem_append.mp found with inFirst | inSecond
    · exact head.unconfigured event inFirst
    · exact tail.unconfigured event inSecond
  guarded := by
    intro enabled
    refine Preceded.append (stable_baselineLaw _) ?_ (tail.guarded (head.enabled.trans enabled))
    refine (head.guarded enabled).mono ?_
    intro event earlier obeyed shielded
    obtain ⟨fingerprint, same, observed⟩ := obeyed shielded
    exact ⟨fingerprint, tail.baseline fingerprint same, observed⟩

theorem HoldsAuthority.trans {first third : RealAdbDevice} {after : List SessionEvent}
    (head : HoldsAuthority first before second) (tail : HoldsAuthority second after third) :
    HoldsAuthority first (before ++ after) third where
  authority := tail.authority.trans head.authority
  unconfigured := by
    intro event found
    rcases List.mem_append.mp found with inFirst | inSecond
    · exact head.unconfigured event inFirst
    · exact tail.unconfigured event inSecond
  elevated := by
    have later := tail.elevated
    rw [head.authority] at later
    exact Preceded.append (stable_elevatedUnder _) head.elevated later

theorem Moved.trans {first third : RealAdbDevice} {after : List SessionEvent}
    (head : Moved first before second) (tail : Moved second after third) :
    Moved first (before ++ after) third :=
  ⟨head.identity.trans tail.identity, head.authority.trans tail.authority⟩

def isUnmarked : SessionOperation → Bool
  | .command .. | .shell .. | .rootProbe _ | .returned false => true
  | _ => false

def isElevated : SessionOperation → Bool
  | .shell _ privileged _ _ _ => privileged
  | _ => false

theorem unmarked_baselineLaw {event : SessionEvent} (unmarked : isUnmarked event.operation = true)
    (baseline : Option DeviceIdentityFingerprint) (earlier : List SessionEvent) :
    BaselineLaw baseline event earlier := by
  intro shielded
  cases same : event.operation <;> simp_all [isUnmarked, isProtected]
  split at shielded <;> simp_all

theorem elevatedUnder_of_plain {event : SessionEvent} (plain : isElevated event.operation = false)
    (authority : Bool) (earlier : List SessionEvent) : ElevatedUnder authority event earlier := by
  intro args mode check operation issued
  rw [issued] at plain
  exact nomatch plain

section

variable {before after : RealAdbDevice} {events : List SessionEvent}

theorem HoldsIdentity.unmarked (unmarked : ∀ event ∈ events, isUnmarked event.operation = true)
    (serial : after.serial = before.serial)
    (enabled : after.identity.enabled = before.identity.enabled)
    (target : after.identity.target = before.identity.target)
    (baseline : ∀ fingerprint, before.identity.baseline = some fingerprint →
      after.identity.baseline = some fingerprint)
    (sound : Sound before → Sound after) : HoldsIdentity before events after where
  serial := serial
  enabled := enabled
  target := target
  baseline := baseline
  sound := sound
  unconfigured := by
    intro event found
    have kind := unmarked event found
    cases same : event.operation <;> simp_all [isUnmarked, configuresIdentity]
  guarded _ := preceded_of_free fun event found => unmarked_baselineLaw (unmarked event found) _

theorem HoldsIdentity.still (unmarked : ∀ event ∈ events, isUnmarked event.operation = true)
    (serial : after.serial = before.serial) (identity : after.identity = before.identity) :
    HoldsIdentity before events after := by
  refine .unmarked unmarked serial (by rw [identity]) (by rw [identity]) ?_ ?_
  · intro fingerprint held
    rw [identity, held]
  · intro sound
    rwa [Sound, identity, serial]

theorem HoldsAuthority.unmarked (unmarked : ∀ event ∈ events, isUnmarked event.operation = true)
    (authority : after.rootAuthority.reviewedRootAuthorized =
      before.rootAuthority.reviewedRootAuthorized)
    (elevated : Preceded (ElevatedUnder before.rootAuthority.reviewedRootAuthorized) events) :
    HoldsAuthority before events after where
  authority := authority
  unconfigured := by
    intro event found
    have kind := unmarked event found
    cases same : event.operation <;> simp_all [isUnmarked, configuresAuthority]
  elevated := elevated

theorem HoldsAuthority.plain (unmarked : ∀ event ∈ events, isUnmarked event.operation = true)
    (plain : ∀ event ∈ events, isElevated event.operation = false)
    (authority : after.rootAuthority.reviewedRootAuthorized =
      before.rootAuthority.reviewedRootAuthorized) : HoldsAuthority before events after :=
  .unmarked unmarked authority
    (preceded_of_free fun event found => elevatedUnder_of_plain (plain event found) _)

end

theorem Moved.still {before after : RealAdbDevice} {events : List SessionEvent}
    (unmarked : ∀ event ∈ events, isUnmarked event.operation = true)
    (plain : ∀ event ∈ events, isElevated event.operation = false)
    (serial : after.serial = before.serial) (identity : after.identity = before.identity)
    (authority : after.rootAuthority.reviewedRootAuthorized =
      before.rootAuthority.reviewedRootAuthorized) : Moved before events after :=
  ⟨.still unmarked serial identity, .plain unmarked plain authority⟩

theorem Moved.refl (device : RealAdbDevice) : Moved device [] device :=
  .still (by simp) (by simp) rfl rfl rfl

end

section

variable {phase : IdentityCheckPhase} {events : List SessionEvent}
  {judged : IdentityGuard × Except AdbCommandError Unit} {device : RealAdbDevice}

theorem judge_facts {target : IdentityTarget} {fingerprint : DeviceIdentityFingerprint}
    (ready : device.identity.target = some (.ready target))
    (serial : device.serial = some target.serial)
    (unmarked : ∀ event ∈ events, isUnmarked event.operation = true)
    (plain : ∀ event ∈ events, isElevated event.operation = false)
    (found : judged = device.identity.judge target phase fingerprint) :
    Moved device events { device with identity := judged.1 } ∧
      (judged.2 = .ok () → judged.1.baseline = some fingerprint) := by
  unfold IdentityGuard.judge at found
  split at found
  next fresh =>
    split_ifs at found with agrees
    · subst found
      refine ⟨⟨.unmarked unmarked rfl rfl rfl ?_ ?_, .plain unmarked plain rfl⟩, fun _ => rfl⟩
      · intro other held
        rw [fresh] at held
        exact nomatch held
      · rintro _ other held
        obtain rfl : fingerprint = other := by simpa using held
        exact ⟨target, ready, serial, agrees⟩
    · subst found
      exact ⟨.still unmarked plain rfl rfl rfl, by simp⟩
  next baseline held =>
    cases agreed : compareSamples baseline fingerprint with
    | same =>
        rw [agreed] at found
        subst found
        refine ⟨.still unmarked plain rfl rfl rfl, fun _ => ?_⟩
        rw [← compareSamples_same.mp agreed, held]
    | changed =>
        rw [agreed] at found
        subst found
        exact ⟨.still unmarked plain rfl rfl rfl, by simp⟩
    | unverified =>
        rw [agreed] at found
        subst found
        exact ⟨.still unmarked plain rfl rfl rfl, by simp⟩

theorem compare_facts {target : IdentityTarget}
    (ready : device.identity.target = some (.ready target))
    (serial : device.serial = some target.serial)
    (ran : Runs (device.identity.compare target phase) events judged) :
    Moved device events { device with identity := judged.1 } ∧
      (judged.2 = .ok () → ∃ fingerprint, judged.1.baseline = some fingerprint ∧
        Observed events fingerprint) := by
  obtain ⟨shown, probes, rest, collected, ended, rfl⟩ := runs_bind.mp ran
  have probed : ∀ event ∈ probes, isUnmarked event.operation = true ∧
      isElevated event.operation = false := by
    intro event found
    obtain ⟨args, same⟩ := only_collectFingerprint.events collected event found
    rw [same]
    exact ⟨rfl, rfl⟩
  have unmarked event (found : event ∈ probes) := (probed event found).1
  have plain event (found : event ∈ probes) := (probed event found).2
  rcases shown with error | _ | fingerprint
  · obtain ⟨rfl, rfl⟩ := runs_pure.mp ended
    exact ⟨.still (by simpa using unmarked) (by simpa using plain) rfl rfl rfl, by simp⟩
  · obtain ⟨rfl, rfl⟩ := runs_pure.mp ended
    exact ⟨.still (by simpa using unmarked) (by simpa using plain) rfl rfl rfl, by simp⟩
  · obtain ⟨rfl, found⟩ := runs_pure.mp ended
    rw [List.append_nil]
    obtain ⟨moved, same⟩ := judge_facts ready serial unmarked plain found
    exact ⟨moved, fun passed => ⟨fingerprint, same passed, collectFingerprint_observed collected⟩⟩

theorem checkIdentity_facts {outcome : RealAdbDevice × Except AdbCommandError Unit}
    (ran : Runs (device.checkIdentity phase) events outcome) :
    Moved device events outcome.1 ∧
      (outcome.2 = .ok () → device.identity.enabled = true →
        ∃ fingerprint, outcome.1.identity.baseline = some fingerprint ∧
          Observed events fingerprint) := by
  obtain ⟨checked, probes, rest, judged, ended, rfl⟩ := runs_bind.mp ran
  obtain ⟨rfl, rfl⟩ := runs_pure.mp ended
  rw [List.append_nil]
  unfold IdentityGuard.check at judged
  split_ifs at judged with off
  · obtain ⟨rfl, rfl⟩ := runs_pure.mp judged
    refine ⟨.refl device, fun _ enabled => ?_⟩
    rw [off] at enabled
    exact nomatch enabled
  · split at judged
    next target serial ready named =>
      split_ifs at judged with same
      · subst same
        obtain ⟨moved, passed⟩ := compare_facts ready named judged
        exact ⟨moved, fun ok _ => passed ok⟩
      · obtain ⟨rfl, rfl⟩ := runs_pure.mp judged
        exact ⟨.refl device, by simp⟩
    next =>
      obtain ⟨rfl, rfl⟩ := runs_pure.mp judged
      exact ⟨.refl device, by simp⟩

end

section

variable {events : List SessionEvent} {device : RealAdbDevice}

theorem probeRoot_runs {outcome : Except AdbCommandError RootProbeOutcome}
    (ran : Runs device.probeRootTypedWithMode events outcome) :
    ∃ answer, events = [rootProbeEvent device.rootShellMode answer] ∧
      outcome = answer.map classifyRootResult := by
  obtain ⟨answer, rest, ended, rfl⟩ := runs_request_bind.mp ran
  obtain ⟨rfl, rfl⟩ := runs_pure.mp ended
  exact ⟨answer, rfl, rfl⟩

theorem moved_probe (device : RealAdbDevice)
    (answer : Except AdbCommandError AdbCommandResult) :
    Moved device [rootProbeEvent device.rootShellMode answer] device :=
  .still (by simp [rootProbeEvent, isUnmarked]) (by simp [rootProbeEvent, isElevated]) rfl rfl rfl

theorem classifyProbe_ok {outcome : RootProbeOutcome} (passed : classifyProbe outcome = .ok ()) :
    outcome = .granted := by
  cases outcome with
  | granted => rfl
  | denied => exact nomatch passed
  | unavailable => exact nomatch passed
  | checkFailed reason message => cases reason <;> exact nomatch passed

theorem settleProbe_facts {outcome : RootProbeOutcome}
    {settled : RealAdbDevice × Except AdbCommandError Unit}
    (ran : Runs (device.settleProbe outcome) events settled) :
    Moved device events settled.1 ∧
      (settled.2 = .ok () → settled.1 = device ∧ events = [] ∧ outcome = .granted) := by
  unfold RealAdbDevice.settleProbe at ran
  split at ran
  next granted =>
    obtain ⟨rfl, rfl⟩ := runs_pure.mp ran
    exact ⟨.refl device, fun _ => ⟨rfl, rfl, classifyProbe_ok granted⟩⟩
  next error refused =>
    split_ifs at ran with lost
    · obtain ⟨checked, probes, rest, judged, ended, rfl⟩ := runs_bind.mp ran
      obtain ⟨rfl, rfl⟩ := runs_pure.mp ended
      rw [List.append_nil]
      refine ⟨(checkIdentity_facts judged).1, fun passed => ?_⟩
      cases found : checked.2 with
      | ok value => simp [found, Except.bind] at passed
      | error other => simp [found, Except.bind] at passed
    · obtain ⟨rfl, rfl⟩ := runs_pure.mp ran
      exact ⟨.refl device, by simp⟩

theorem revalidate_facts {outcome : RealAdbDevice × Except AdbCommandError Unit}
    (ran : Runs device.revalidateRootAuthorityUnchecked events outcome) :
    Moved device events outcome.1 ∧
      (outcome.2 = .ok () → outcome.1 = device ∧
        device.rootAuthority.reviewedRootAuthorized = true ∧
        ∃ result, events = [rootProbeEvent device.rootShellMode (.ok result)] ∧
          classifyRootResult result = .granted) := by
  unfold RealAdbDevice.revalidateRootAuthorityUnchecked at ran
  split_ifs at ran with unreviewed
  · obtain ⟨rfl, rfl⟩ := runs_pure.mp ran
    exact ⟨.refl device, by simp⟩
  · split at ran
    · obtain ⟨rfl, rfl⟩ := runs_pure.mp ran
      exact ⟨.refl device, by simp⟩
    · obtain ⟨probed, probes, rest, asked, ended, rfl⟩ := runs_bind.mp ran
      obtain ⟨answer, rfl, rfl⟩ := probeRoot_runs asked
      cases answer with
      | error error =>
          obtain ⟨rfl, rfl⟩ := runs_pure.mp ended
          exact ⟨moved_probe device _, by simp⟩
      | ok result =>
          obtain ⟨moved, passed⟩ := settleProbe_facts ended
          refine ⟨(moved_probe device _).trans moved, fun ok => ?_⟩
          obtain ⟨same, rfl, granted⟩ := passed ok
          exact ⟨same, by simpa using unreviewed, result, rfl, granted⟩

theorem moved_command (device : RealAdbDevice) (args : List String) (check : Bool)
    (operation : ProcessOperation) (answer : Except AdbCommandError AdbCommandResult) :
    Moved device [commandEvent args check operation answer] device :=
  .still (by simp [commandEvent, isUnmarked]) (by simp [commandEvent, isElevated]) rfl rfl rfl

theorem moved_runShell {args : List String} {check privileged : Bool} {operation : ProcessOperation}
    {outcome : RealAdbDevice × Except AdbCommandError AdbCommandResult}
    (ran : Runs (device.runShellWithPrivilegeUnchecked args check privileged operation) events
      outcome) :
    Moved device events outcome.1 := by
  unfold RealAdbDevice.runShellWithPrivilegeUnchecked at ran
  split_ifs at ran with privileged
  · obtain ⟨revalidated, probes, rest, asked, ended, rfl⟩ := runs_bind.mp ran
    obtain ⟨moved, passed⟩ := revalidate_facts asked
    split at ended
    next error refused =>
      obtain ⟨rfl, rfl⟩ := runs_pure.mp ended
      simpa using moved
    next granted =>
      obtain ⟨same, reviewed, result, rfl, rooted⟩ := passed granted
      obtain ⟨answer, last, done, rfl⟩ := runs_request_bind.mp ended
      obtain ⟨rfl, rfl⟩ := runs_pure.mp done
      rw [same]
      have unmarked : ∀ event ∈ [rootProbeEvent device.rootShellMode (.ok result),
          (⟨.shell args true device.rootShellMode check operation, answer⟩ : SessionEvent)],
          isUnmarked event.operation = true := by
        simp [rootProbeEvent, isUnmarked]
      refine ⟨.still unmarked rfl rfl, .unmarked unmarked rfl ?_⟩
      refine precededAfter_cons.mpr ⟨elevatedUnder_of_plain rfl _ _, precededAfter_cons.mpr
        ⟨?_, precededAfter_nil _⟩⟩
      intro args mode check operation issued
      cases issued
      exact ⟨reviewed, [], result, rfl, rooted⟩
  · obtain ⟨answer, last, done, rfl⟩ := runs_request_bind.mp ran
    obtain ⟨rfl, rfl⟩ := runs_pure.mp done
    exact .still (by simp [isUnmarked]) (by simp [isElevated]) rfl rfl rfl

theorem moved_perform {operation : BodyOperation} {outcome : RealAdbDevice × BodyResponse operation}
    (ran : Runs (device.perform operation) events outcome) : Moved device events outcome.1 := by
  cases operation with
  | command args check operation =>
      obtain ⟨answer, last, ended, rfl⟩ := runs_request_bind.mp ran
      obtain ⟨rfl, rfl⟩ := runs_pure.mp ended
      exact moved_command device args check operation answer
  | shell args check privileged operation => exact moved_runShell ran
  | checkRoot =>
      obtain ⟨result, probes, rest, asked, ended, rfl⟩ := runs_bind.mp ran
      obtain ⟨rfl, rfl⟩ := runs_pure.mp ended
      rw [List.append_nil]
      unfold RealAdbDevice.checkRootUnchecked at asked
      split at asked
      · obtain ⟨rfl, _⟩ := runs_pure.mp asked
        exact .refl device
      · obtain ⟨outcome, before, after, probed, finished, rfl⟩ := runs_bind.mp asked
        obtain ⟨rfl, _⟩ := runs_pure.mp finished
        obtain ⟨answer, rfl, _⟩ := probeRoot_runs probed
        exact moved_probe device answer

theorem moved_runBody {β : Type} {body : Program BodyOperation BodyResponse β}
    {outcome : RealAdbDevice × β}
    (ran : Runs (RealAdbDevice.runBody body device) events outcome) :
    Moved device events outcome.1 := by
  induction body generalizing device events with
  | done value =>
      obtain ⟨rfl, rfl⟩ := runs_pure.mp ran
      exact .refl device
  | call operation next ih =>
      obtain ⟨performed, before, after, first, last, rfl⟩ := runs_bind.mp ran
      exact (moved_perform first).trans (ih performed.2 last)

end

section

variable {α : Type} {events : List SessionEvent}
  {outcome : RealAdbDevice × Except AdbCommandError α}

theorem moved_mark {device after : RealAdbDevice} {operation : SessionOperation}
    (answer : SessionResponse operation) (moved : Moved device events after)
    (shielded : operation = .body ∨ ∃ succeeded, operation = .returned succeeded)
    (seen : isProtected operation = true → device.identity.enabled = true →
      ∃ fingerprint, after.identity.baseline = some fingerprint ∧ Observed events fingerprint) :
    Moved device (events ++ [⟨operation, answer⟩]) after := by
  have quiet : configuresIdentity operation = false ∧ configuresAuthority operation = false ∧
      isElevated operation = false := by
    rcases shielded with rfl | ⟨succeeded, rfl⟩ <;> exact ⟨rfl, rfl, rfl⟩
  obtain ⟨identityFree, authorityFree, plain⟩ := quiet
  refine ⟨{ moved.identity with unconfigured := ?_, guarded := ?_ },
    { moved.authority with unconfigured := ?_, elevated := ?_ }⟩
  · intro event found
    rcases List.mem_append.mp found with inside | last
    · exact moved.identity.unconfigured event inside
    · rwa [List.mem_singleton.mp last]
  · intro enabled
    refine precededAfter_append.mpr ⟨moved.identity.guarded enabled, ?_⟩
    refine precededAfter_cons.mpr ⟨?_, precededAfter_nil _⟩
    intro protectedMark
    simpa using seen protectedMark enabled
  · intro event found
    rcases List.mem_append.mp found with inside | last
    · exact moved.authority.unconfigured event inside
    · rwa [List.mem_singleton.mp last]
  · refine precededAfter_append.mpr ⟨moved.authority.elevated, ?_⟩
    exact precededAfter_cons.mpr ⟨elevatedUnder_of_plain plain _ _, precededAfter_nil _⟩

theorem moved_recordResult (device : RealAdbDevice) (effect : DeviceCommandEffect)
    (result : Except AdbCommandError α) : Moved device [] (device.recordResult effect result) :=
  .still (by simp) (by simp) rfl rfl (RootAuthorityGuard.recordResult_authorized _ _ _)

theorem moved_keepError (device : RealAdbDevice) (result : Except AdbCommandError α) :
    Moved device [] (device.keepError result) := by
  cases result <;> exact .still (by simp) (by simp) rfl rfl rfl

theorem moved_lastError (device : RealAdbDevice) (error : Option AdbCommandError) :
    Moved device [] { device with lastError := error } :=
  .still (by simp) (by simp) rfl rfl rfl

variable {device : RealAdbDevice}

theorem finishGuarded_facts {result : Except AdbCommandError α}
    (ran : Runs (device.finishGuarded result) events outcome) :
    Moved device events outcome.1 ∧
      (outcome.2.toBool = true → device.identity.enabled = true →
        ∃ fingerprint, outcome.1.identity.baseline = some fingerprint ∧
          Observed events fingerprint) := by
  unfold RealAdbDevice.finishGuarded at ran
  split_ifs at ran with checks
  · obtain ⟨checked, before, after, judged, ended, rfl⟩ := runs_bind.mp ran
    obtain ⟨moved, passed⟩ := checkIdentity_facts judged
    split at ended
    next error refused =>
      obtain ⟨rfl, rfl⟩ := runs_pure.mp ended
      exact ⟨moved.trans (moved_lastError _ _), by simp [Except.toBool]⟩
    next granted =>
      obtain ⟨rfl, rfl⟩ := runs_pure.mp ended
      refine ⟨moved.trans (moved_keepError _ _), fun _ enabled => ?_⟩
      obtain ⟨fingerprint, held, observed⟩ := passed granted enabled
      have kept := (moved_keepError checked.1 result).identity.baseline fingerprint held
      exact ⟨fingerprint, kept, by simpa using observed⟩
  · obtain ⟨rfl, rfl⟩ := runs_pure.mp ran
    refine ⟨moved_keepError _ _, fun succeeded => ?_⟩
    cases result with
    | ok value => simp [RealAdbDevice.shouldPostCheck] at checks
    | error error => simp [Except.toBool] at succeeded

theorem guardedTyped_facts {effect : DeviceCommandEffect}
    {body : Body α} (ran : Runs (device.guardedTyped effect body) events outcome) :
    Moved device events outcome.1 ∧
      (outcome.2.toBool = true → device.identity.enabled = true →
        ∃ fingerprint, outcome.1.identity.baseline = some fingerprint ∧
          Observed events fingerprint) := by
  obtain ⟨checked, before, after, judged, ended, rfl⟩ := runs_bind.mp ran
  obtain ⟨moved, passed⟩ := checkIdentity_facts judged
  split at ended
  next error refused =>
    obtain ⟨rfl, rfl⟩ := runs_pure.mp ended
    exact ⟨moved.trans (moved_lastError _ _), by simp [Except.toBool]⟩
  next granted =>
    obtain ⟨answer, rest, begun, rfl⟩ := runs_request_bind.mp ended
    obtain ⟨performed, bodyEvents, last, bodyRan, finished, rfl⟩ := runs_bind.mp begun
    have started := moved_mark answer moved (.inl rfl) fun _ => passed granted
    have worked := moved_runBody bodyRan
    have recorded := moved_recordResult performed.1 effect performed.2
    obtain ⟨ended, succeeds⟩ := finishGuarded_facts finished
    have whole := started.trans (worked.trans (recorded.trans ended))
    refine ⟨by simpa using whole, fun ok enabled => ?_⟩
    have still : (performed.1.recordResult effect performed.2).identity.enabled = true := by
      rw [recorded.identity.enabled, worked.identity.enabled, moved.identity.enabled, enabled]
    obtain ⟨fingerprint, held, start, first, second, same, sampled, again⟩ := succeeds ok still
    exact ⟨fingerprint, held, _, first, second, by rw [same, ← List.cons_append,
      ← List.append_assoc, ← List.append_assoc], sampled, again⟩

theorem holdsIdentity_configureAuthority {reviewed : Bool}
    {mark : SessionResponse (.configureAuthority reviewed)} :
    HoldsIdentity device [⟨.configureAuthority reviewed, mark⟩]
      (device.configureRootAuthority reviewed) where
  serial := rfl
  enabled := rfl
  target := rfl
  baseline _ held := held
  sound sound := sound
  unconfigured := by simp [configuresIdentity]
  guarded _ := preceded_of_free <| by
    intro event found earlier shielded
    rw [List.mem_singleton.mp found] at shielded
    exact nomatch shielded

theorem holdsAuthority_configureIdentity
    {target : Option TargetDeviceBinding} {mark : SessionResponse (.configureIdentity target)} :
    HoldsAuthority device [⟨.configureIdentity target, mark⟩]
      (device.configureIdentityGuard target) where
  authority := rfl
  unconfigured := by simp [configuresAuthority]
  elevated := preceded_of_free fun event found earlier =>
    elevatedUnder_of_plain (by rw [List.mem_singleton.mp found]; rfl) _ earlier

theorem moved_guarded {device next : RealAdbDevice} {effect : DeviceCommandEffect}
    {body : Body α} (ran : Runs (runCall device (.guarded effect body)) events next) :
    Moved device events next := by
  obtain ⟨outcome, before, after, worked, ended, rfl⟩ := runs_bind.mp ran
  obtain ⟨answer, rest, finished, rfl⟩ := runs_request_bind.mp ended
  obtain ⟨rfl, rfl⟩ := runs_pure.mp finished
  obtain ⟨moved, passed⟩ := guardedTyped_facts worked
  refine moved_mark answer moved (.inr ⟨_, rfl⟩) fun succeeds enabled => ?_
  refine passed ?_ enabled
  cases ok : outcome.2.toBool with
  | true => rfl
  | false => simp [ok, isProtected] at succeeds

theorem holdsIdentity_runCall {device next : RealAdbDevice} {call : SessionCall α}
    (ran : Runs (runCall device call) events next) (plain : call.isConfiguration = false) :
    HoldsIdentity device events next := by
  cases call with
  | configureIdentity target => exact nomatch plain
  | configureAuthority reviewed =>
      obtain ⟨mark, rest, ended, rfl⟩ := runs_request_bind.mp ran
      obtain ⟨rfl, rfl⟩ := runs_pure.mp ended
      exact holdsIdentity_configureAuthority
  | configureRoute route =>
      obtain ⟨rfl, rfl⟩ := runs_pure.mp ran
      exact .still (by simp) rfl rfl
  | guarded effect body => exact (moved_guarded ran).identity

end

section

variable {α : Type} {events history : List SessionEvent} {calls : List (SessionCall α)}

theorem lastAuthority_append
    (free : ∀ event ∈ events, configuresAuthority event.operation = false) :
    lastAuthority (history ++ events) = lastAuthority history := by
  induction events generalizing history with
  | nil => rw [List.append_nil]
  | cons event events ih =>
      have plain := free event (by simp)
      have step : lastAuthority (history ++ [event]) = lastAuthority history := by
        rw [lastAuthority, List.foldl_append]
        cases same : event.operation <;> simp_all [lastAuthority, configuresAuthority]
      rw [List.append_cons, ih fun other found => free other (by simp [found]), step]

variable {device after : RealAdbDevice}

theorem elevated_after
    (agrees : lastAuthority history = device.rootAuthority.reviewedRootAuthorized)
    (held : HoldsAuthority device events after) :
    PrecededAfter history ElevatedLaw events ∧
      lastAuthority (history ++ events) = after.rootAuthority.reviewedRootAuthorized := by
  constructor
  · intro earlier event later split
    have free : ∀ other ∈ earlier, configuresAuthority other.operation = false := by
      intro other found
      exact held.unconfigured other (by simp [split, found])
    rw [ElevatedLaw, lastAuthority_append free, agrees]
    exact stable_elevatedUnder _ event earlier history (held.elevated earlier event later split)
  · rw [lastAuthority_append held.unconfigured, agrees, held.authority]

variable {next : RealAdbDevice}

theorem elevated_runCall {call : SessionCall α} (ran : Runs (runCall device call) events next)
    (agrees : lastAuthority history = device.rootAuthority.reviewedRootAuthorized) :
    PrecededAfter history ElevatedLaw events ∧
      lastAuthority (history ++ events) = next.rootAuthority.reviewedRootAuthorized := by
  cases call with
  | configureIdentity target =>
      obtain ⟨mark, rest, ended, rfl⟩ := runs_request_bind.mp ran
      obtain ⟨rfl, rfl⟩ := runs_pure.mp ended
      exact elevated_after agrees holdsAuthority_configureIdentity
  | configureAuthority reviewed =>
      obtain ⟨mark, rest, ended, rfl⟩ := runs_request_bind.mp ran
      obtain ⟨rfl, rfl⟩ := runs_pure.mp ended
      refine ⟨precededAfter_cons.mpr ⟨elevatedUnder_of_plain rfl _ _, precededAfter_nil _⟩, ?_⟩
      rw [lastAuthority, List.foldl_append]
      rfl
  | configureRoute route =>
      obtain ⟨rfl, rfl⟩ := runs_pure.mp ran
      rw [List.append_nil]
      exact ⟨precededAfter_nil _, agrees⟩
  | guarded effect body => exact elevated_after agrees (moved_guarded ran).authority

theorem elevated_runSession (ran : Runs (runSession device calls) events after)
    (agrees : lastAuthority history = device.rootAuthority.reviewedRootAuthorized) :
    PrecededAfter history ElevatedLaw events := by
  induction calls generalizing device history events with
  | nil =>
      obtain ⟨rfl, _⟩ := runs_pure.mp ran
      exact precededAfter_nil _
  | cons call calls ih =>
      obtain ⟨next, before, rest, first, last, rfl⟩ := runs_bind.mp ran
      obtain ⟨obeyed, agrees⟩ := elevated_runCall first agrees
      exact precededAfter_append.mpr ⟨obeyed, ih last agrees⟩

theorem baseline_runSession (ran : Runs (runSession device calls) events after)
    (plain : ∀ call ∈ calls, call.isConfiguration = false) : HoldsIdentity device events after := by
  induction calls generalizing device events with
  | nil =>
      obtain ⟨rfl, rfl⟩ := runs_pure.mp ran
      exact .still (by simp) rfl rfl
  | cons call calls ih =>
      obtain ⟨next, before, rest, first, last, rfl⟩ := runs_bind.mp ran
      have head := holdsIdentity_runCall first (plain call (by simp))
      exact head.trans (ih last fun other found => plain other (by simp [found]))

theorem sound_new (serial : Option String) : Sound (.new serial) := by
  intro fingerprint held
  exact nomatch held

theorem sound_configureIdentityGuard (device : RealAdbDevice)
    (target : Option TargetDeviceBinding) : Sound (device.configureIdentityGuard target) := by
  intro fingerprint held
  unfold RealAdbDevice.configureIdentityGuard at held
  split_ifs at held <;> exact nomatch held

/-- Until the next configuration one baseline, which keeps that of the device, guards the events. -/
structure GuardedUntil (device : RealAdbDevice) (events : List SessionEvent)
    (baseline : Option DeviceIdentityFingerprint) : Prop where
  kept : ∀ fingerprint, device.identity.baseline = some fingerprint → baseline = some fingerprint
  reviewed : ∀ fingerprint, baseline = some fingerprint →
    ∃ ready, device.identity.target = some (.ready ready) ∧ device.serial = some ready.serial ∧
      matchesReviewedTarget fingerprint ready = true
  guarded : device.identity.enabled = true → ∀ segment rest, events = segment ++ rest →
    (∀ event ∈ segment, configuresIdentity event.operation = false) →
    Preceded (BaselineLaw baseline) segment

def KeepsTargets (serial : Option String) (events : List SessionEvent) : Prop :=
  ∀ before target mark segment after, target.isSome = true →
    events = before ++ ⟨.configureIdentity target, mark⟩ :: (segment ++ after) →
    (∀ event ∈ segment, configuresIdentity event.operation = false) →
    IdentityKept serial target segment

theorem GuardedUntil.extend {before after : List SessionEvent}
    {baseline : Option DeviceIdentityFingerprint} (held : HoldsIdentity device before next)
    (guarded : GuardedUntil next after baseline) :
    GuardedUntil device (before ++ after) baseline where
  kept fingerprint found := guarded.kept fingerprint (held.baseline fingerprint found)
  reviewed := by
    rw [← held.serial, ← held.target]
    exact guarded.reviewed
  guarded := by
    intro enabled segment rest split free
    have first : Preceded (BaselineLaw baseline) before := by
      refine (held.guarded enabled).mono ?_
      intro event earlier obeyed shielded
      obtain ⟨fingerprint, same, observed⟩ := obeyed shielded
      exact ⟨fingerprint, guarded.kept fingerprint same, observed⟩
    rcases List.append_eq_append_iff.mp split with ⟨more, rfl, rest⟩ | ⟨more, rfl, rest⟩
    · refine first.append (stable_baselineLaw _) ?_
      refine guarded.guarded (held.enabled.trans enabled) more _ rest ?_
      intro event found
      exact free event (by simp [found])
    · exact first.initial

theorem KeepsTargets.extend {before after : List SessionEvent}
    (held : HoldsIdentity device before next) (kept : KeepsTargets next.serial after) :
    KeepsTargets device.serial (before ++ after) := by
  intro earlier target mark segment rest covered split free
  rw [← held.serial]
  rcases List.append_eq_append_iff.mp split with ⟨more, rfl, tail⟩ | ⟨more, rfl, tail⟩
  · exact kept more target mark segment rest covered tail free
  · cases more with
    | nil => exact kept [] target mark segment rest covered tail.symm free
    | cons event more =>
        obtain ⟨rfl, _⟩ := List.cons.inj tail
        have free := held.unconfigured ⟨.configureIdentity target, mark⟩ (by simp)
        simp [configuresIdentity] at free

theorem identity_runSession
    (ran : Runs (runSession device calls) events after) (sound : Sound device) :
    (∃ baseline, GuardedUntil device events baseline) ∧ KeepsTargets device.serial events := by
  induction calls generalizing device events with
  | nil =>
      obtain ⟨rfl, rfl⟩ := runs_pure.mp ran
      refine ⟨⟨_, fun _ held => held, sound, ?_⟩, ?_⟩
      · intro _ segment rest split _
        obtain ⟨rfl, _⟩ := List.append_eq_nil_iff.mp split.symm
        exact precededAfter_nil _
      · intro before target mark segment rest _ split _
        simp at split
  | cons call calls ih =>
      obtain ⟨next, before, rest, first, last, rfl⟩ := runs_bind.mp ran
      by_cases plain : call.isConfiguration = false
      · have held := holdsIdentity_runCall first plain
        obtain ⟨⟨baseline, guarded⟩, kept⟩ := ih last (held.sound sound)
        exact ⟨⟨baseline, guarded.extend held⟩, kept.extend held⟩
      · cases call with
        | configureIdentity target =>
            obtain ⟨mark, _, ended, rfl⟩ := runs_request_bind.mp first
            obtain ⟨rfl, rfl⟩ := runs_pure.mp ended
            obtain ⟨⟨baseline, guarded⟩, kept⟩ := ih last (sound_configureIdentityGuard _ _)
            refine ⟨⟨_, fun _ held => held, sound, ?_⟩, ?_⟩
            · intro _ segment rest split free
              cases segment with
              | nil => exact precededAfter_nil _
              | cons event segment =>
                  obtain ⟨rfl, _⟩ := List.cons.inj split
                  simp [configuresIdentity] at free
            · intro earlier other otherMark segment rest covered split free
              cases earlier with
              | nil =>
                  obtain ⟨same, tail⟩ := List.cons.inj split
                  cases same
                  obtain ⟨binding, rfl⟩ := Option.isSome_iff_exists.mp covered
                  refine ⟨baseline, ?_, guarded.guarded rfl segment rest tail free⟩
                  intro fingerprint held
                  obtain ⟨ready, target, serial, agrees⟩ := guarded.reviewed fingerprint held
                  exact ⟨binding, ready, rfl, Option.some.inj target, serial, agrees⟩
              | cons event earlier =>
                  obtain ⟨_, tail⟩ := List.cons.inj split
                  exact kept earlier other otherMark segment rest covered tail free
        | configureAuthority reviewed => exact absurd rfl plain
        | configureRoute route => exact absurd rfl plain
        | guarded effect body => exact absurd rfl plain

/-- Every session whose identity guard is configured with a reviewed target keeps its law. -/
theorem runSession_keepsSession (serial : Option String) (calls : List (SessionCall α)) :
    KeepsSession (fun target => target.isSome = true) serial calls where
  law trace device ran :=
    { identity := by
        intro before target mark segment after covered split free
        have kept := (identity_runSession ran (sound_new serial)).2
        exact kept before target mark segment after covered split free
      elevated := elevated_runSession ran rfl }
  baseline earlier later _ plain before middle after last _ ran :=
    (baseline_runSession ran plain).baseline

/-- A guard without a reviewed target is switched off, and then a body runs without any check. -/
theorem not_keepsSession_unreviewed :
    ¬ KeepsSession (fun _ => True) none
      [.configureIdentity none, .guarded .readOnly (.done (.ok ()))] := by
  intro kept
  have ran : Runs (runSession (.new none)
      [.configureIdentity none, .guarded .readOnly (.done (.ok ()) : Body Unit)])
      [⟨.configureIdentity none, ()⟩, ⟨.body, ()⟩, ⟨.returned true, ()⟩] (.new none) := by
    change Runs (call (SessionOperation.configureIdentity none) fun _ =>
      call SessionOperation.body fun _ => call (SessionOperation.returned true) fun _ =>
        done (RealAdbDevice.new none)) _ _
    apply Runs.call
    apply Runs.call
    apply Runs.call
    exact .done _
  obtain ⟨baseline, reviewed, obeyed⟩ := (kept.law _ _ ran).identity [] none ()
    [⟨.body, ()⟩, ⟨.returned true, ()⟩] [] trivial rfl (by simp [configuresIdentity])
  obtain ⟨fingerprint, same, _⟩ := obeyed [] _ _ rfl rfl
  obtain ⟨binding, _, missing, _⟩ := reviewed fingerprint same
  exact nomatch missing

end

end EmuChef.Adb
